/-
  OrderApi.Crow.HttpHeaders
  ─────────────────────────
  **THE HEADERS THAT THE PARSER ITSELF READS** (`s_header_field` and
  `s_header_value` in `include/crow_all.h`).

  Most headers are only handed on.  A few decide where a request ends and what becomes
  of the connection, and a matcher finds them letter by letter while the name and the
  value go by:

    • `fieldLoop_named`   a name is taken for one of these exactly if it is that word in
                          large or small letters;
    • `value_read`        what their values do to the flags and to the length of the body.

  There is one exception: `uses_transfer_encoding` is set as soon as a name begins with
  that word, and it stays.
-/
import OrderApi.Crow.HttpInvariant

namespace OrderApi.Crow.HttpParser

/-! ## §1. Fields. -/

/-- A header as it is sent. -/
structure Field where
  name : List Char
  value : List Char
  deriving DecidableEq

/-- The number that digits stand for. -/
def decimal (cs : List Char) : Nat := cs.foldl (fun n c => n * 10 + digit c) 0

/-- The characters of a value. -/
def ValueChars (cs : List Char) : Prop := ∀ c ∈ cs, isHeaderChar c = true ∧ c ≠ '\r' ∧ c ≠ '\n'

namespace Field

/-- The name in small letters. -/
def key (f : Field) : List Char := f.name.map Char.toLower

def isConnection (f : Field) : Bool :=
  f.key = "connection".toList || f.key = "proxy-connection".toList

def isLength (f : Field) : Bool := f.key = "content-length".toList

def isEncoding (f : Field) : Bool := f.key = "transfer-encoding".toList

def isUpgrade (f : Field) : Bool := f.key = "upgrade".toList

/-- What sets `uses_transfer_encoding`. -/
def touchesEncoding (f : Field) : Bool := "transfer-encoding".toList.isPrefixOf f.key

def keepsAlive (f : Field) : Bool := f.isConnection && f.value.map lower = "keep-alive".toList

def closes (f : Field) : Bool := f.isConnection && f.value.map lower = "close".toList

/-- What a client may send: a name, a value without blanks around it, and a length or an
    encoding that the parser understands. -/
structure Valid (f : Field) : Prop where
  name : f.name ≠ [] ∧ NameText f.name
  value : ValueChars f.value
  front : ∀ c ∈ f.value.head?, c ≠ ' ' ∧ c ≠ '\t'
  back : ∀ c ∈ f.value.getLast?, c ≠ ' '
  length : f.isLength = true → f.value ≠ [] ∧ (∀ c ∈ f.value, isNum c = true)
    ∧ decimal f.value / 10 ≤ (ullongMax - 10) / 10
  encoding : f.touchesEncoding = true → f.isEncoding = true ∧ f.value.map lower = "chunked".toList
  upgrade : f.isUpgrade = false

instance (f : Field) : Decidable f.Valid :=
  -- Along the list: there is also an instance that goes through all characters.
  have {p : Char → Prop} [DecidablePred p] (cs : List Char) : Decidable (∀ c ∈ cs, p c) :=
    List.decidableBAll p cs
  have {p : Char → Prop} [DecidablePred p] (c : Option Char) : Decidable (∀ d ∈ c, p d) :=
    c.decidableForallMem
  have (cs : List Char) : Decidable (NameText cs) := inferInstanceAs (Decidable (∀ c ∈ cs, _))
  have (cs : List Char) : Decidable (ValueChars cs) := inferInstanceAs (Decidable (∀ c ∈ cs, _))
  decidable_of_iff
    ((f.name ≠ [] ∧ NameText f.name) ∧ ValueChars f.value
      ∧ (∀ c ∈ f.value.head?, c ≠ ' ' ∧ c ≠ '\t') ∧ (∀ c ∈ f.value.getLast?, c ≠ ' ')
      ∧ (f.isLength = true → f.value ≠ [] ∧ (∀ c ∈ f.value, isNum c = true)
        ∧ decimal f.value / 10 ≤ (ullongMax - 10) / 10)
      ∧ (f.touchesEncoding = true →
        f.isEncoding = true ∧ f.value.map lower = "chunked".toList)
      ∧ f.isUpgrade = false)
    ⟨fun ⟨name, value, front, back, length, encoding, upgrade⟩ =>
      ⟨name, value, front, back, length, encoding, upgrade⟩,
      fun h => ⟨h.name, h.value, h.front, h.back, h.length, h.encoding, h.upgrade⟩⟩

/-- What a field does to the flags. -/
def flagged (f : Field) (flags : Flags) : Flags :=
  { flags with
    chunked := flags.chunked || f.isEncoding
    connectionKeepAlive := flags.connectionKeepAlive || f.keepsAlive
    connectionClose := flags.connectionClose || f.closes
    contentLength := flags.contentLength || f.isLength }

/-- What a field does to the length of the body. -/
def lengthened (f : Field) (n : Nat) : Nat := if f.isLength then decimal f.value else n

end Field

/-! ## §2. Names. -/

/-- On capital letters `lower` does what it is meant to. -/
theorem lower_eq_toLower {c : Char} (h : ('A' ≤ c && c ≤ 'Z') = true) : lower c = c.toLower := by
  have hall : ∀ k, k < 26 → lower (Char.ofNat (65 + k)) = (Char.ofNat (65 + k)).toLower := by
    decide
  simp only [Bool.and_eq_true, decide_eq_true_eq, char_le_iff] at h
  have hA : 'A'.toNat = 65 := rfl
  have hZ : 'Z'.toNat = 90 := rfl
  have hc : c = Char.ofNat (65 + (c.toNat - 65)) := by
    rw [show 65 + (c.toNat - 65) = c.toNat by omega, Char.ofNat_toNat]
  rw [hc]
  exact hall _ (by omega)

/-- `toLower` leaves the others. -/
theorem toLower_eq_self {c : Char} (h : ('A' ≤ c && c ≤ 'Z') = false) : c.toLower = c := by
  unfold Char.toLower
  split
  · rename_i hup
    have : ('A' ≤ c && c ≤ 'Z') = true := by
      simp only [Bool.and_eq_true, decide_eq_true_eq]
      exact hup
    rw [this] at h
    cases h
  · rfl

/-- The entry of `tokens` is the small letter. -/
theorem token_eq {c : Char} (h : (token c).isSome = true) : token c = some c.toLower := by
  unfold token at h ⊢
  cases hup : ('A' ≤ c && c ≤ 'Z') with
  | true => rw [if_pos rfl, lower_eq_toLower hup]
  | false =>
      rw [hup, if_neg (by decide)] at h
      rw [if_neg (by decide), toLower_eq_self hup]
      split at h
      · rw [if_pos (by assumption)]
      · cases h

/-- No name has a blank in it. -/
theorem token_ne_space {c : Char} (h : (token c).isSome = true) : c ≠ ' ' := by
  rintro rfl
  exact absurd h (by decide)

/-- Nor has it one in small letters. -/
theorem toLower_ne_space {c : Char} (h : (token c).isSome = true) : c.toLower ≠ ' ' := by
  intro heq
  cases hup : ('A' ≤ c && c ≤ 'Z') with
  | true =>
      obtain rfl | rfl := lower_eq_space (.inl ((lower_eq_toLower hup).trans heq))
      · exact absurd h (by decide)
      · exact absurd h (by decide)
  | false => exact token_ne_space h ((toLower_eq_self hup).symm.trans heq)

/-- Where the matcher stands behind the letters `n`: all but `general` know them. -/
def NameAt (n : List Char) (hs : HeaderState) (index : Nat) : Prop :=
  match hs with
  | .general => True
  | .c => n = "c".toList ∧ index = 0
  | .co => n = "co".toList ∧ index = 1
  | .con => n = "con".toList ∧ index = 2
  | .matchingConnection => Within "connection" n index
  | .matchingProxyConnection => Within "proxy-connection" n index
  | .matchingContentLength => Within "content-length" n index
  | .matchingTransferEncoding => Within "transfer-encoding" n index
  | .matchingUpgrade => Within "upgrade" n index
  | .connection => n = "connection".toList ∨ n = "proxy-connection".toList
  | .contentLength => n = "content-length".toList
  | .transferEncoding => n = "transfer-encoding".toList
  | .upgrade => n = "upgrade".toList
  | _ => False
where
  /-- The letters up to `index`, with more to come. -/
  Within (word : String) (n : List Char) (index : Nat) : Prop :=
    n = word.toList.take (index + 1) ∧ index + 1 < word.length

/-- One letter further in a word. -/
theorem within_matchWord {word : String} {n : List Char} {index : Nat} {c : Char}
    {found hs : HeaderState} {S : HeaderState → Prop} (h : NameAt.Within word n index)
    (hfailed : S .general) (hfound : n ++ [c] = word.toList → S found)
    (hhs : NameAt.Within word (n ++ [c]) (index + 1) → S hs) :
    S (matchWord word found .general hs (index + 1) c) := by
  obtain ⟨hn, hlen⟩ := h
  have hlen' : index + 1 < word.toList.length := hlen
  unfold matchWord
  split
  · exact hfailed
  · rename_i hgo
    obtain ⟨-, hc⟩ := not_or.mp hgo
    have htake : n ++ [c] = word.toList.take (index + 1 + 1) := by
      rw [hn, List.take_succ_eq_append_getElem hlen', not_not.mp hc, charAt,
        List.getD_eq_getElem?_getD, List.getElem?_eq_getElem hlen', Option.getD_some]
    split
    · rename_i hend
      refine hfound ?_
      rw [htake, hend]
      exact List.take_length
    · exact hhs ⟨htake, by omega⟩

/-- A further letter of a name. -/
theorem fieldChar_nameAt {p : Parser} {n : List Char} {c : Char}
    (h : NameAt n p.headerState p.index) (hc : (token c).isSome = true) :
    ∃ hs index uses, fieldChar p c.toLower c
        = some { p with headerState := hs, index := index, usesTransferEncoding := uses }
      ∧ NameAt (n ++ [c.toLower]) hs index
      ∧ (uses = p.usesTransferEncoding ∨ n ++ [c.toLower] = "transfer-encoding".toList) := by
  have hspace := token_ne_space hc
  obtain ⟨flags, state, hs, index, uses, nread, length, qs, major, minor, method, up⟩ := p
  -- a word that is not the encoding
  have hword : ∀ {word : String} {found hs : HeaderState}, NameAt.Within word n index →
      (n ++ [c.toLower] = word.toList → NameAt (n ++ [c.toLower]) found (index + 1)) →
      (NameAt.Within word (n ++ [c.toLower]) (index + 1) →
        NameAt (n ++ [c.toLower]) hs (index + 1)) →
      NameAt (n ++ [c.toLower]) (matchWord word found .general hs (index + 1) c.toLower)
        (index + 1) :=
    fun hin =>
      within_matchWord (S := fun hs => NameAt (n ++ [c.toLower]) hs (index + 1)) hin trivial
  cases hs with
  | general => exact ⟨_, _, _, rfl, trivial, .inl rfl⟩
  | c =>
      obtain ⟨rfl, rfl⟩ := h
      refine ⟨_, _, _, rfl, ?_, .inl rfl⟩
      split
      · rename_i heq
        exact ⟨by rw [heq]; rfl, rfl⟩
      · trivial
  | co =>
      obtain ⟨rfl, rfl⟩ := h
      refine ⟨_, _, _, rfl, ?_, .inl rfl⟩
      split
      · rename_i heq
        exact ⟨by rw [heq]; rfl, rfl⟩
      · trivial
  | con =>
      obtain ⟨rfl, rfl⟩ := h
      refine ⟨_, _, _, rfl, ?_, .inl rfl⟩
      split
      · rename_i heq
        exact ⟨by rw [heq]; rfl, show 4 < "connection".length by decide⟩
      · split
        · rename_i heq
          exact ⟨by rw [heq]; rfl, show 4 < "content-length".length by decide⟩
        · trivial
  | matchingConnection => exact ⟨_, _, _, rfl, hword h .inl id, .inl rfl⟩
  | matchingProxyConnection => exact ⟨_, _, _, rfl, hword h .inr id, .inl rfl⟩
  | matchingContentLength => exact ⟨_, _, _, rfl, hword h id id, .inl rfl⟩
  | matchingUpgrade => exact ⟨_, _, _, rfl, hword h id id, .inl rfl⟩
  | matchingTransferEncoding =>
      refine ⟨_, _, _, rfl, hword h id id, ?_⟩
      refine within_matchWord (S := fun hs => (uses || decide (hs = .transferEncoding)) = uses
        ∨ n ++ [c.toLower] = "transfer-encoding".toList) h ?_ .inr fun _ => ?_
      · exact .inl (by simp)
      · exact .inl (by simp)
  | connection => exact ⟨_, _, _, rfl, by rw [if_pos hspace]; trivial, .inl rfl⟩
  | contentLength => exact ⟨_, _, _, rfl, by rw [if_pos hspace]; trivial, .inl rfl⟩
  | transferEncoding => exact ⟨_, _, _, rfl, by rw [if_pos hspace]; trivial, .inl rfl⟩
  | upgrade => exact ⟨_, _, _, rfl, by rw [if_pos hspace]; trivial, .inl rfl⟩
  | _ => exact h.elim

/-- A letter of a name, as far as the matcher goes. -/
def nameStep (s : HeaderState × Nat × Bool) (c : Char) : HeaderState × Nat × Bool :=
  match fieldChar { headerState := s.1, index := s.2.1, usesTransferEncoding := s.2.2 } c c with
  | some q => (q.headerState, q.index, q.usesTransferEncoding)
  | none => s

/-- The case of a letter does not matter, and neither does the rest of the parser. -/
theorem fieldChar_step {p q : Parser} {c : Char} (hc : (token c).isSome = true)
    (h : fieldChar p c.toLower c = some q) :
    nameStep (p.headerState, p.index, p.usesTransferEncoding) c.toLower
      = (q.headerState, q.index, q.usesTransferEncoding) := by
  have hspace := token_ne_space hc
  have hsmall := toLower_ne_space hc
  obtain ⟨flags, state, hs, index, uses, nread, length, qs, major, minor, method, up⟩ := p
  cases hs <;> cases h <;> simp [nameStep, fieldChar, hspace, hsmall]

/-- The inner loop over a name matches it against the known ones; the induction is on its
    characters. -/
theorem fieldLoop_walk {p : Parser} {n cs : List Char} (h : NameAt n p.headerState p.index)
    (hcs : NameText cs) :
    ∃ hs index uses, fieldLoop p cs
        = some ({ p with headerState := hs, index := index, usesTransferEncoding := uses },
            cs.length)
      ∧ NameAt (n ++ cs.map Char.toLower) hs index
      ∧ (uses = p.usesTransferEncoding
        ∨ "transfer-encoding".toList <+: n ++ cs.map Char.toLower)
      ∧ (cs.map Char.toLower).foldl nameStep (p.headerState, p.index, p.usesTransferEncoding)
        = (hs, index, uses) := by
  induction cs generalizing p n with
  | nil => exact ⟨_, _, _, rfl, by simpa using h, .inl rfl, rfl⟩
  | cons c cs ih =>
      have hc : (token c).isSome = true := hcs c List.mem_cons_self
      obtain ⟨hs, index, uses, hstep, hat, huses⟩ := fieldChar_nameAt h hc
      obtain ⟨hs', index', uses', hloop, hat', huses', hwalk⟩ :=
        ih (p := { p with headerState := hs, index := index, usesTransferEncoding := uses }) hat
          fun d hd => hcs d (List.mem_cons_of_mem _ hd)
      have hsplit : n ++ (c :: cs).map Char.toLower
          = n ++ [c.toLower] ++ cs.map Char.toLower := by simp
      refine ⟨hs', index', uses', ?_, hsplit ▸ hat', ?_, ?_⟩
      · rw [fieldLoop, token_eq hc]
        simp [hstep, hloop]
      · rw [hsplit]
        obtain rfl | hprefix := huses'
        · obtain rfl | hword := huses
          · exact .inl rfl
          · exact .inr (hword ▸ List.prefix_append _ _)
        · exact .inr hprefix
      · rw [List.map_cons, List.foldl_cons, fieldChar_step hc hstep]
        exact hwalk

/-- The first character picks the words that it may begin. -/
theorem firstHeaderState_nameAt (c : Char) : NameAt [c] (firstHeaderState c) 0 := by
  unfold firstHeaderState
  split
  · rename_i heq
    exact ⟨by rw [heq]; rfl, rfl⟩
  · split
    · rename_i heq
      exact ⟨by rw [heq]; rfl, by decide⟩
    · split
      · rename_i heq
        exact ⟨by rw [heq]; rfl, by decide⟩
      · split
        · rename_i heq
          exact ⟨by rw [heq]; rfl, by decide⟩
        · trivial

theorem NameAt.ofName {n : List Char} {hs : HeaderState} {index : Nat} (h : NameAt n hs index) :
    hs.ofName = true := by
  cases hs <;> first | rfl | exact h.elim

/-- The way of the matcher through a whole word. -/
def nameWalk (uses : Bool) (key : List Char) : HeaderState × Nat × Bool :=
  match key with
  | [] => (.general, 0, uses)
  | c :: cs => cs.foldl nameStep (firstHeaderState c, 0, uses)

/-- Each of the known names is recognized: by evaluation. -/
theorem nameWalk_words (uses : Bool) :
    (nameWalk uses "connection".toList).1 = .connection
      ∧ (nameWalk uses "proxy-connection".toList).1 = .connection
      ∧ (nameWalk uses "content-length".toList).1 = .contentLength
      ∧ (nameWalk uses "transfer-encoding".toList).1 = .transferEncoding
      ∧ (nameWalk uses "transfer-encoding".toList).2.2 = true := by
  revert uses
  decide

/-- The matcher has found out about a name what there is to find out. -/
structure Named (f : Field) (hs : HeaderState) : Prop where
  ofName : hs.ofName = true
  connection : hs = .connection ↔ f.isConnection = true
  length : hs = .contentLength ↔ f.isLength = true
  encoding : hs = .transferEncoding ↔ f.isEncoding = true
  upgrade : hs = .upgrade → f.isUpgrade = true

/-- **A name is taken for one of the words exactly if it is one**, in large or small
    letters. -/
theorem fieldLoop_named {p : Parser} {f : Field} {a : Char} {as : List Char}
    (hname : f.name = a :: as) (htext : NameText f.name)
    (hfirst : p.headerState = firstHeaderState a.toLower) (hindex : p.index = 0) :
    ∃ hs index uses, fieldLoop p as
        = some ({ p with headerState := hs, index := index, usesTransferEncoding := uses },
            as.length)
      ∧ Named f hs
      ∧ (f.touchesEncoding = false → uses = p.usesTransferEncoding)
      ∧ (f.isEncoding = true → uses = true) := by
  have hstart : NameAt [a.toLower] p.headerState p.index := by
    rw [hfirst, hindex]
    exact firstHeaderState_nameAt _
  obtain ⟨hs, index, uses, hloop, hat, huses, hwalk⟩ :=
    fieldLoop_walk hstart fun c hc => htext c (by rw [hname]; exact List.mem_cons_of_mem _ hc)
  have hkey : f.key = a.toLower :: as.map Char.toLower := by
    rw [Field.key, hname, List.map_cons]
  rw [List.singleton_append, ← hkey] at hat huses
  have hway : nameWalk p.usesTransferEncoding f.key = (hs, index, uses) := by
    rw [hkey, ← hwalk, hfirst, hindex]
    rfl
  obtain ⟨hconn, hproxy, hlen, henc, huse⟩ := nameWalk_words p.usesTransferEncoding
  refine ⟨hs, index, uses, hloop, ⟨hat.ofName, ⟨?_, ?_⟩, ⟨?_, ?_⟩, ⟨?_, ?_⟩, ?_⟩, ?_, ?_⟩
  · rintro rfl
    rw [Field.isConnection, Bool.or_eq_true, decide_eq_true_eq, decide_eq_true_eq]
    exact hat
  · intro h
    rw [Field.isConnection, Bool.or_eq_true, decide_eq_true_eq, decide_eq_true_eq] at h
    obtain h | h := h
    · rw [h] at hway
      exact (congrArg Prod.fst hway).symm.trans hconn
    · rw [h] at hway
      exact (congrArg Prod.fst hway).symm.trans hproxy
  · rintro rfl
    exact decide_eq_true hat
  · intro h
    rw [of_decide_eq_true h] at hway
    exact (congrArg Prod.fst hway).symm.trans hlen
  · rintro rfl
    exact decide_eq_true hat
  · intro h
    rw [of_decide_eq_true h] at hway
    exact (congrArg Prod.fst hway).symm.trans henc
  · rintro rfl
    exact decide_eq_true hat
  · intro h
    refine huses.resolve_right fun hprefix => ?_
    rw [Field.touchesEncoding, List.isPrefixOf_iff_prefix.mpr hprefix] at h
    cases h
  · intro h
    rw [of_decide_eq_true h] at hway
    exact (congrArg (·.2.2) hway).symm.trans huse

/-! ## §3. Values. -/

theorem ValueChars.tail {c : Char} {cs : List Char} (h : ValueChars (c :: cs)) : ValueChars cs :=
  fun d hd => h d (List.mem_cons_of_mem _ hd)

/-- A round of the loop over a value. -/
theorem valueLoop_cons {p q r : Parser} {c : Char} {cs : List Char} {n : Nat}
    (hc : ValueChars (c :: cs)) (hq : valueChar p c = some (.ok q))
    (hloop : valueLoop q cs = some (.ok (r, n))) :
    valueLoop p (c :: cs) = some (.ok (r, n + 1)) := by
  obtain ⟨hchar, hcr, hlf⟩ := hc c List.mem_cons_self
  rw [valueLoop, if_neg (by simp [hcr, hlf]), hchar, if_neg (by decide), hq]
  simp only [hloop, Option.map_some]
  rfl

theorem valueLoop_general {p : Parser} {cs : List Char} (h : p.headerState = .general)
    (hcs : ValueChars cs) : valueLoop p cs = some (.ok (p, cs.length)) := by
  induction cs with
  | nil => rfl
  | cons c cs ih => exact valueLoop_cons hcs (by unfold valueChar; rw [h]) (ih hcs.tail)

/-- A letter of a word that a value may be. -/
def Matching (word : String) (found failed matching : HeaderState) : Prop :=
  ∀ (p : Parser) (ch : Char), p.headerState = matching → valueChar p ch
    = some (.ok { p with
        index := p.index + 1
        headerState := matchWord word found failed matching (p.index + 1) (lower ch) })

theorem valueChar_keepAlive :
    Matching "keep-alive" .connectionKeepAlive .general .matchingConnectionKeepAlive := by
  intro p ch h
  unfold valueChar
  rw [h]

theorem valueChar_close :
    Matching "close" .connectionClose .general .matchingConnectionClose := by
  intro p ch h
  unfold valueChar
  rw [h]

/-- The word `chunked`. -/
theorem valueChar_chunked :
    Matching "chunked" .transferEncodingChunked .matchingTransferEncodingToken
      .matchingTransferEncodingChunked := by
  intro p ch h
  unfold valueChar
  rw [h]

/-- **A value that is a word is found**, in large or small letters. -/
theorem valueLoop_word {word : String} {found failed matching : HeaderState}
    (hgo : Matching word found failed matching)
    {p : Parser} {cs : List Char} (hs : p.headerState = matching)
    (hindex : p.index + 1 < word.length) (hcs : ValueChars cs)
    (hword : cs.map lower = word.toList.drop (p.index + 1)) :
    ∃ index, valueLoop p cs
      = some (.ok ({ p with headerState := found, index := index }, cs.length)) := by
  have hin : p.index + 1 < word.toList.length := hindex
  rw [List.drop_eq_getElem_cons hin] at hword
  induction cs generalizing p with
  | nil => cases hword
  | cons c cs ih =>
      obtain ⟨hc, hrest⟩ := List.cons.inj hword
      have hmatch : matchWord word found failed matching (p.index + 1) (lower c)
          = if p.index + 1 + 1 = word.length then found else matching := by
        unfold matchWord
        rw [if_neg]
        rw [charAt, List.getD_eq_getElem?_getD, List.getElem?_eq_getElem hin, Option.getD_some, hc]
        simp only [not_or, Nat.not_lt, not_not, and_true]
        omega
      have hstep := hgo p c hs
      rw [hmatch] at hstep
      by_cases hend : p.index + 1 + 1 = word.length
      · have hnil : cs = [] := by
          rw [List.drop_eq_nil_of_le (by rw [hend]; exact Nat.le_refl _)] at hrest
          exact List.map_eq_nil_iff.mp hrest
        rw [if_pos hend] at hstep
        subst hnil
        exact ⟨_, valueLoop_cons hcs hstep rfl⟩
      · rw [if_neg hend] at hstep
        have hlt : p.index + 1 + 1 < word.toList.length := by
          have : word.toList.length = word.length := rfl
          omega
        rw [List.drop_eq_getElem_cons hlt] at hrest
        obtain ⟨index, hloop⟩ :=
          ih (p := { p with index := p.index + 1, headerState := matching }) rfl hlt hcs.tail hlt
            hrest
        exact ⟨index, valueLoop_cons hcs hstep hloop⟩

/-- Where the matcher stands in the value of `Connection`. -/
def ConnectionAt (n : List Char) (hs : HeaderState) (index : Nat) : Prop :=
  match hs with
  | .general => True
  | .matchingConnectionKeepAlive => NameAt.Within "keep-alive" n index
  | .matchingConnectionClose => NameAt.Within "close" n index
  | .connectionKeepAlive => n = "keep-alive".toList ∨ n.getLast? = some ' '
  | .connectionClose => n = "close".toList ∨ n.getLast? = some ' '
  | _ => False

/-- A further letter of the value of `Connection`. -/
theorem valueChar_connectionAt {p : Parser} {n : List Char}
    (h : ConnectionAt n p.headerState p.index) (c : Char) :
    ∃ hs index, valueChar p c = some (.ok { p with headerState := hs, index := index })
      ∧ ConnectionAt (n ++ [lower c]) hs index := by
  obtain ⟨flags, state, hs, index, uses, nread, length, qs, major, minor, method, up⟩ := p
  cases hs with
  | general => exact ⟨_, _, rfl, trivial⟩
  | matchingConnectionKeepAlive =>
      exact ⟨_, _, rfl, within_matchWord
        (S := fun hs => ConnectionAt (n ++ [lower c]) hs (index + 1)) h trivial .inl id⟩
  | matchingConnectionClose =>
      exact ⟨_, _, rfl, within_matchWord
        (S := fun hs => ConnectionAt (n ++ [lower c]) hs (index + 1)) h trivial .inl id⟩
  | connectionKeepAlive =>
      refine ⟨_, _, rfl, ?_⟩
      split
      · trivial
      · rename_i heq
        rw [not_not.mp heq]
        exact .inr List.getLast?_concat
  | connectionClose =>
      refine ⟨_, _, rfl, ?_⟩
      split
      · trivial
      · rename_i heq
        rw [not_not.mp heq]
        exact .inr List.getLast?_concat
  | _ => exact h.elim

/-- The value of a `Connection` header is passed over, whatever it says; the induction is on its
    characters. -/
theorem valueLoop_connectionAt {p : Parser} {n cs : List Char}
    (h : ConnectionAt n p.headerState p.index) (hcs : ValueChars cs) :
    ∃ hs index, valueLoop p cs
        = some (.ok ({ p with headerState := hs, index := index }, cs.length))
      ∧ ConnectionAt (n ++ cs.map lower) hs index := by
  induction cs generalizing p n with
  | nil => exact ⟨_, _, rfl, by simpa using h⟩
  | cons c cs ih =>
      obtain ⟨hs, index, hstep, hat⟩ := valueChar_connectionAt h c
      obtain ⟨hs', index', hloop, hat'⟩ :=
        ih (p := { p with headerState := hs, index := index }) hat hcs.tail
      refine ⟨hs', index', valueLoop_cons hcs hstep hloop, ?_⟩
      rwa [List.append_assoc] at hat'

/-- More digits do not make a number smaller. -/
theorem le_decimal (n : Nat) (cs : List Char) : n ≤ cs.foldl (fun n c => n * 10 + digit c) n := by
  induction cs generalizing n with
  | nil => exact Nat.le_refl n
  | cons c cs ih =>
      calc n ≤ n * 10 + digit c := by omega
        _ ≤ _ := ih _

/-- The digits of a length. -/
theorem valueLoop_digits {p : Parser} {cs : List Char} (h : p.headerState = .contentLengthNum)
    (hnum : ∀ c ∈ cs, isNum c = true) (hcs : ValueChars cs)
    (hfits : cs.foldl (fun n c => n * 10 + digit c) p.contentLength / 10 ≤ (ullongMax - 10) / 10) :
    valueLoop p cs = some (.ok ({ p with
      contentLength := cs.foldl (fun n c => n * 10 + digit c) p.contentLength }, cs.length)) := by
  induction cs generalizing p with
  | nil => rfl
  | cons c cs ih =>
      have hc := hnum c List.mem_cons_self
      have hspace : c ≠ ' ' := by
        rintro rfl
        exact absurd hc (by decide)
      have hlimit : ¬ (ullongMax - 10) / 10 < p.contentLength := by
        have hle := le_decimal (p.contentLength * 10 + digit c) cs
        rw [List.foldl_cons] at hfits
        omega
      have hstep : valueChar p c
          = some (.ok { p with contentLength := p.contentLength * 10 + digit c }) := by
        unfold valueChar
        rw [h]
        dsimp only
        rw [lengthDigit, if_neg hspace, hc, if_neg (by decide), if_neg hlimit, ← h]
      exact valueLoop_cons hcs hstep
        (ih (p := { p with contentLength := p.contentLength * 10 + digit c }) h
          (fun d hd => hnum d (List.mem_cons_of_mem _ hd)) hcs.tail hfits)

section
variable {f : Field} {hs : HeaderState}

/-- A field that the parser does not look into. -/
theorem flagged_plain (hconn : f.isConnection = false) (hlen : f.isLength = false)
    (henc : f.isEncoding = false) (flags : Flags) : f.flagged flags = flags := by
  simp [Field.flagged, Field.keepsAlive, Field.closes, hconn, hlen, henc]

/-- A field is one of the known headers at most: those of the connection are about no body. -/
theorem isConnection_excludes (h : f.isConnection = true) :
    f.isLength = false ∧ f.isEncoding = false := by
  have hword : ∀ key : List Char, key = "connection".toList ∨ key = "proxy-connection".toList →
      decide (key = "content-length".toList) = false
        ∧ decide (key = "transfer-encoding".toList) = false := by
    rintro key (rfl | rfl) <;> decide
  refine hword f.key ?_
  rwa [Field.isConnection, Bool.or_eq_true, decide_eq_true_eq, decide_eq_true_eq] at h

theorem isLength_excludes (h : f.isLength = true) :
    f.isConnection = false ∧ f.isEncoding = false := by
  rw [Field.isConnection, Field.isEncoding, of_decide_eq_true h]
  decide

theorem isEncoding_touches (h : f.isEncoding = true) : f.touchesEncoding = true := by
  rw [Field.touchesEncoding, of_decide_eq_true h]
  decide

theorem isEncoding_excludes (h : f.isEncoding = true) :
    f.isConnection = false ∧ f.isLength = false := by
  rw [Field.isConnection, Field.isLength, of_decide_eq_true h]
  decide

/-- The value of `Connection` is `keep-alive`, `close` or something else. -/
theorem connection_flagged {index : Nat} (h : f.isConnection = true)
    (hat : ConnectionAt (f.value.map lower) hs index) (hback : ∀ c ∈ f.value.getLast?, c ≠ ' ')
    (hvalue : ValueChars f.value)
    (hkeep : f.value.map lower = "keep-alive".toList → hs = .connectionKeepAlive)
    (hclose : f.value.map lower = "close".toList → hs = .connectionClose) (flags : Flags) :
    finishedFlags hs flags = f.flagged flags := by
  obtain ⟨hlen, henc⟩ := isConnection_excludes h
  have hlast : (f.value.map lower).getLast? ≠ some ' ' := by
    rw [List.getLast?_map]
    intro hlast
    obtain ⟨c, hc, hlower⟩ := Option.map_eq_some_iff.mp hlast
    obtain rfl | rfl := lower_eq_space (.inl hlower)
    · exact absurd (hvalue _ (List.mem_of_getLast? hc)).1 (by decide)
    · exact hback _ hc rfl
  have hflags : f.flagged flags = { flags with
      connectionKeepAlive := flags.connectionKeepAlive || f.keepsAlive
      connectionClose := flags.connectionClose || f.closes } := by
    simp [Field.flagged, hlen, henc]
  rw [hflags, Field.keepsAlive, Field.closes, h, Bool.true_and, Bool.true_and]
  by_cases hk : f.value.map lower = "keep-alive".toList
  · rw [hkeep hk, decide_eq_true hk, decide_eq_false (by rw [hk]; decide), Bool.or_true,
      Bool.or_false]
    rfl
  · by_cases hc : f.value.map lower = "close".toList
    · rw [hclose hc, decide_eq_false hk, decide_eq_true hc, Bool.or_true, Bool.or_false]
      rfl
    · rw [decide_eq_false hk, decide_eq_false hc, Bool.or_false, Bool.or_false]
      cases hs with
      | connectionKeepAlive => exact (hat.elim hk hlast).elim
      | connectionClose => exact (hat.elim hc hlast).elim
      | transferEncodingChunked => exact hat.elim
      | _ => rfl

section
variable {p : Parser} {v : Char} {vs : List Char}

/-- What reading a value may change. -/
def ValueRead (f : Field) (p : Parser) (v : Char) (vs more : List Char) : Prop :=
  ∃ q hs index flags length, valueStart { p with state := .headerValue, index := 0 } v more = .ok q
    ∧ valueLoop q vs = some (.ok ({ p with
        state := .headerValue, headerState := hs, index := index, flags := flags
        contentLength := length }, vs.length))
    ∧ finishedFlags hs flags = f.flagged p.flags ∧ length = f.lengthened p.contentLength

/-- **The value of `Connection`** sets the flags it names. -/
theorem connection_read (hf : f.Valid) (hs : p.headerState = .connection)
    (h : f.isConnection = true) (hvalue : f.value = v :: vs) (more : List Char) :
    ValueRead f p v vs more := by
  have hchars : ValueChars (v :: vs) := hvalue ▸ hf.value
  have hblank : ¬ (lower v = ' ' ∨ lower v = '\t') := by
    intro hblank
    obtain rfl | rfl := lower_eq_space hblank
    · exact absurd (hchars _ List.mem_cons_self).1 (by decide)
    · exact (hf.front ' ' (by rw [hvalue]; rfl)).1 rfl
  let first : HeaderState :=
    if lower v = 'k' then .matchingConnectionKeepAlive
    else if lower v = 'c' then .matchingConnectionClose
    else .general
  let q : Parser := { p with state := .headerValue, index := 0, headerState := first }
  have hstart : valueStart { p with state := .headerValue, index := 0 } v more = .ok q := by
    unfold valueStart
    dsimp only
    rw [hs]
    dsimp only
    rw [if_neg hblank]
  have hat : ConnectionAt [lower v] q.headerState q.index := by
    show ConnectionAt [lower v] first 0
    unfold first
    split
    · rename_i hk
      exact ⟨by rw [hk]; rfl, by decide⟩
    · split
      · rename_i hc
        exact ⟨by rw [hc]; rfl, by decide⟩
      · trivial
  obtain ⟨hs', index, hloop, hat'⟩ := valueLoop_connectionAt hat hchars.tail
  have hmap : f.value.map lower = lower v :: vs.map lower := by rw [hvalue, List.map_cons]
  rw [List.singleton_append, ← hmap] at hat'
  -- a whole word is found
  have hfound : ∀ {word : String} {c : Char} {matching found : HeaderState},
      Matching word found .general matching →
      1 < word.length → word.toList = c :: word.toList.drop 1 →
      (lower v = c → first = matching) → f.value.map lower = word.toList → hs' = found := by
    intro word c matching found hgo hlen hsplit hfirst hword
    rw [hmap, hsplit] at hword
    obtain ⟨hv, hrest⟩ := List.cons.inj hword
    obtain ⟨index', hloop'⟩ := valueLoop_word hgo (p := q) (hfirst hv) hlen hchars.tail hrest
    rw [hloop] at hloop'
    have heq := congrArg (Parser.headerState ∘ Prod.fst) (Except.ok.inj (Option.some.inj hloop'))
    exact heq
  refine ⟨q, hs', index, p.flags, p.contentLength, hstart, hloop,
    connection_flagged h hat' hf.back hf.value ?_ ?_ p.flags, ?_⟩
  · exact hfound valueChar_keepAlive (by decide) (c := 'k') (by decide) fun hv => if_pos hv
  · exact hfound valueChar_close (by decide) (c := 'c') (by decide) fun hv => by
      unfold first
      rw [hv]
      rfl
  · rw [Field.lengthened, (isConnection_excludes h).1]
    rfl

/-- **The value of `Content-Length`** is counted. -/
theorem length_read (hf : f.Valid) (hs : p.headerState = .contentLength) (h : f.isLength = true)
    (hvalue : f.value = v :: vs) (honce : p.flags.contentLength = false) (more : List Char) :
    ValueRead f p v vs more := by
  obtain ⟨-, hnum, hfits⟩ := hf.length h
  obtain ⟨hconn, henc⟩ := isLength_excludes h
  have hchars : ValueChars (v :: vs) := hvalue ▸ hf.value
  have hv : isNum v = true := hnum v (by rw [hvalue]; exact List.mem_cons_self)
  have hdecimal : decimal f.value = vs.foldl (fun n c => n * 10 + digit c) (digit v) := by
    rw [decimal, hvalue, List.foldl_cons, Nat.zero_mul, Nat.zero_add]
  let q : Parser := { p with
    state := .headerValue, index := 0, flags.contentLength := true, contentLength := digit v
    headerState := .contentLengthNum }
  have hstart : valueStart { p with state := .headerValue, index := 0 } v more = .ok q := by
    unfold valueStart
    dsimp only
    rw [hs]
    dsimp only
    rw [hv, if_neg (by decide), honce, if_neg (by decide)]
  refine ⟨q, .contentLengthNum, 0, { p.flags with contentLength := true }, decimal f.value, hstart,
    ?_, ?_, ?_⟩
  · rw [hdecimal]
    refine valueLoop_digits (p := q) rfl
      (fun c hc => hnum c (by rw [hvalue]; exact List.mem_cons_of_mem _ hc)) hchars.tail ?_
    rwa [hdecimal] at hfits
  · simp [finishedFlags, Field.flagged, Field.keepsAlive, Field.closes, hconn, henc, h]
  · rw [Field.lengthened, if_pos h]

/-- **The value of `Transfer-Encoding`** sets `F_CHUNKED`. -/
theorem encoding_read (hf : f.Valid) (hs : p.headerState = .transferEncoding)
    (h : f.isEncoding = true) (hvalue : f.value = v :: vs) (more : List Char) :
    ValueRead f p v vs more := by
  obtain ⟨hconn, hlen⟩ := isEncoding_excludes h
  have hchars : ValueChars (v :: vs) := hvalue ▸ hf.value
  have hword : lower v :: vs.map lower = "chunked".toList := by
    rw [← List.map_cons, ← hvalue]
    exact (hf.encoding (isEncoding_touches h)).2
  obtain ⟨hv, hrest⟩ := List.cons.inj (hword.trans
    (show "chunked".toList = 'c' :: "chunked".toList.drop 1 by decide))
  let q : Parser := { p with
    state := .headerValue, index := 0, headerState := .matchingTransferEncodingChunked }
  have hstart : valueStart { p with state := .headerValue, index := 0 } v more = .ok q := by
    unfold valueStart
    dsimp only
    rw [hs]
    dsimp only
    rw [if_pos hv]
  obtain ⟨index, hloop⟩ :=
    valueLoop_word valueChar_chunked (p := q) rfl (show 1 < "chunked".length by decide)
      hchars.tail hrest
  refine ⟨q, _, index, p.flags, p.contentLength, hstart, hloop, ?_, ?_⟩
  · simp [finishedFlags, Field.flagged, Field.keepsAlive, Field.closes, hconn, hlen, h]
  · rw [Field.lengthened, hlen]
    rfl

/-- **Any other value** is passed over. -/
theorem plain_read (hf : f.Valid) (hnamed : Named f p.headerState)
    (hconn : p.headerState ≠ .connection) (hlen : p.headerState ≠ .contentLength)
    (henc : p.headerState ≠ .transferEncoding) (hvalue : f.value = v :: vs) (more : List Char) :
    ValueRead f p v vs more := by
  have hchars : ValueChars (v :: vs) := hvalue ▸ hf.value
  have hup : p.headerState ≠ .upgrade := fun hs => by
    have hfalse := hf.upgrade
    rw [hnamed.upgrade hs] at hfalse
    cases hfalse
  have hname := hnamed.ofName
  have hplain : ∀ {b : Bool}, ¬ b = true → b = false := fun h => Bool.eq_false_iff.mpr h
  let q : Parser := { p with state := .headerValue, index := 0, headerState := .general }
  have hstart : valueStart { p with state := .headerValue, index := 0 } v more = .ok q := by
    unfold valueStart
    dsimp only
    cases hs : p.headerState with
    | connection => exact absurd hs hconn
    | contentLength => exact absurd hs hlen
    | transferEncoding => exact absurd hs henc
    | upgrade => exact absurd hs hup
    | matchingTransferEncodingTokenStart =>
        rw [hs] at hname
        cases hname
    | contentLengthWs =>
        rw [hs] at hname
        cases hname
    | _ => rfl
  have hlength := hplain (mt hnamed.length.mpr hlen)
  refine ⟨q, .general, 0, p.flags, p.contentLength, hstart, valueLoop_general rfl hchars.tail,
    (flagged_plain (hplain (mt hnamed.connection.mpr hconn)) hlength
      (hplain (mt hnamed.encoding.mpr henc)) p.flags).symm, ?_⟩
  rw [Field.lengthened, hlength]
  rfl

/-- **What the value of a field does to the parser.** -/
theorem value_read (hf : f.Valid) (hnamed : Named f p.headerState) (hvalue : f.value = v :: vs)
    (honce : f.isLength = true → p.flags.contentLength = false) (more : List Char) :
    ValueRead f p v vs more := by
  by_cases hconn : p.headerState = .connection
  · exact connection_read hf hconn (hnamed.connection.mp hconn) hvalue more
  · by_cases hlen : p.headerState = .contentLength
    · have h := hnamed.length.mp hlen
      exact length_read hf hlen h hvalue (honce h) more
    · by_cases henc : p.headerState = .transferEncoding
      · exact encoding_read hf henc (hnamed.encoding.mp henc) hvalue more
      · exact plain_read hf hnamed hconn hlen henc hvalue more

end

end

end OrderApi.Crow.HttpParser
