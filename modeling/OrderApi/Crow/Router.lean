/-
  OrderApi.Crow.Router
  ────────────────────
  **ROUTING** (`crow::Trie`, `crow::Router`).

  One trie for each method, built from the rules in the order they are added and
  compressed by `optimize`; `find` walks all children that match and keeps the
  smallest rule index.  Index 0 means "no rule" and 1 is reserved, so rules start
  at 2.

  The service has no blueprint, no catch-all rule and no numeric parameter: those
  branches of Crow are not reached and not modelled.  Nor is the answer to index 1,
  which only a rule with a trailing slash brings into a trie.
-/
import OrderApi.Crow.Http

namespace OrderApi.Crow

/-! ## §1. The trie. -/

/-- `ParamType`, as far as the rules use it. -/
inductive ParamType where
  | string
  | path
  deriving DecidableEq

/-- `Trie::Node`. -/
inductive Node where
  | mk (ruleIndex : Nat) (key : List Char) (param : Option ParamType) (children : List Node)

namespace Node

def key : Node → List Char
  | .mk _ key _ _ => key

def param : Node → Option ParamType
  | .mk _ _ param _ => param

def children : Node → List Node
  | .mk _ _ _ children => children

/-- The head of a trie without rules. -/
def empty : Node := .mk 0 [] none []

end Node

/-- What one turn of the loop in `Trie::add` consumes. -/
inductive Piece where
  | char (c : Char)
  | param (p : ParamType)

/-- A rule cut into characters and parameters. -/
def pieces : List Char → List Piece
  | [] => []
  | '<' :: 's' :: 't' :: 'r' :: 'i' :: 'n' :: 'g' :: '>' :: rest => .param .string :: pieces rest
  | '<' :: 'p' :: 'a' :: 't' :: 'h' :: '>' :: rest => .param .path :: pieces rest
  -- the routes of the service have no other parameter types
  | c :: rest => .char c :: pieces rest

/-- The child a piece leads to. -/
def Piece.leadsTo : Piece → Node → Bool
  | .char c, n => n.key.head? = some c
  | .param p, n => n.param = some p

/-- `add_child_node` for a piece. -/
def Piece.fresh : Piece → Node
  | .char c => .mk 0 [c] none []
  | .param p => .mk 0 [] (some p) []

/-- `Trie::add`, from the pieces of the rule. -/
def addPieces (ruleIndex : Nat) : List Piece → Node → Node
  | [], .mk _ key param children => .mk ruleIndex key param children
  | p :: ps, .mk i key param children =>
      match children.findIdx? p.leadsTo with
      | some n => .mk i key param (children.modify n (addPieces ruleIndex ps))
      | none => .mk i key param (children ++ [addPieces ruleIndex ps p.fresh])

/-- `Trie::add`. -/
def Node.add (url : String) (ruleIndex : Nat) (head : Node) : Node :=
  addPieces ruleIndex (pieces url.toList) head

mutual
/-- `Trie::optimizeNode`: a node without rule and parameter that has one plain
    child is merged with it.  `key` is the key the node has by now. -/
def Node.optimizeNode (key : List Char) : Node → Node
  | .mk i _ param [] => .mk i key param []
  | .mk i _ param [c] =>
      if i = 0 ∧ param = none ∧ c.param = none then c.optimizeNode (key ++ c.key)
      else .mk i key param [c.optimizeNode c.key]
  | .mk i _ param (c :: d :: cs) =>
      .mk i key param (c.optimizeNode c.key :: d.optimizeNode d.key :: optimizeNodes cs)

/-- `optimizeNode` on each node of a list. -/
def optimizeNodes : List Node → List Node
  | [] => []
  | c :: cs => c.optimizeNode c.key :: optimizeNodes cs
end

/-- `Trie::optimize`. -/
def Node.optimize : Node → Node
  | .mk i key param children => .mk i key param (optimizeNodes children)

/-- A rule index with the string parameters of its match. -/
abbrev Match := Nat × List String

/-- `update_found`: the smaller index wins. -/
def updateFound (found ret : Match) : Match :=
  if ret.1 ≠ 0 ∧ (found.1 = 0 ∨ ret.1 < found.1) then ret else found

mutual
/-- `Trie::find` at a node, with the rest of the URL and the parameters so far. -/
def Node.find (params : List String) (rest : List Char) : Node → Match
  | .mk i _ _ children => if rest = [] then (i, params) else findIn params rest (0, []) children

/-- The loop over the children in `Trie::find`. -/
def findIn (params : List String) (rest : List Char) (found : Match) : List Node → Match
  | [] => found
  | c :: cs =>
      let found' :=
        match c.param with
        | some .string =>
            -- a string parameter is one non-empty segment, a path takes the rest
            let segment := rest.takeWhile (· ≠ '/')
            if segment = [] then found
            else updateFound found
              (c.find (params ++ [String.ofList segment]) (rest.drop segment.length))
        | some .path => updateFound found (c.find (params ++ [String.ofList rest]) [])
        | none =>
            if c.key.isPrefixOf rest then updateFound found (c.find params (rest.drop c.key.length))
            else found
      findIn params rest found' cs
end

mutual
/-- The rule indices that occur in a trie. -/
def Node.indices : Node → List Nat
  | .mk i _ _ children => i :: indicesIn children

def indicesIn : List Node → List Nat
  | [] => []
  | c :: cs => c.indices ++ indicesIn cs
end

/-- What a node takes of a URL. -/
inductive Part where
  | literal (key : List Char)
  | param (p : ParamType)
  deriving DecidableEq

def Node.part (n : Node) : Part :=
  match n.param with
  | some p => .param p
  | none => .literal n.key

mutual
/-- The rule indices of a trie, with the parts on the way to each. -/
def Node.paths : Node → List (Nat × List Part)
  | .mk i _ _ children => (i, []) :: pathsIn children

def pathsIn : List Node → List (Nat × List Part)
  | [] => []
  | c :: cs => c.paths.map (fun p => (p.1, c.part :: p.2)) ++ pathsIn cs
end

mutual
/-- Each node is the end of one path. -/
theorem Node.paths_indices : (n : Node) → n.paths.map Prod.fst = n.indices
  | .mk i key param children => by
      unfold Node.paths Node.indices
      rw [List.map_cons, pathsIn_indices children]

/-- So it is along the children. -/
theorem pathsIn_indices : (cs : List Node) → (pathsIn cs).map Prod.fst = indicesIn cs
  | [] => rfl
  | c :: cs => by
      unfold pathsIn indicesIn
      rw [List.map_append, List.map_map, pathsIn_indices cs, ← c.paths_indices]
      rfl
end

/-- The parts one after the other make up a URL. -/
inductive Covers : List Part → List Char → Prop where
  | nil : Covers [] []
  | literal (key : List Char) {parts : List Part} {rest : List Char} (tail : Covers parts rest) :
      Covers (.literal key :: parts) (key ++ rest)
  | string (segment : List Char) {parts : List Part} {rest : List Char} (tail : Covers parts rest) :
      Covers (.param .string :: parts) (segment ++ rest)
  | path (rest : List Char) {parts : List Part} (tail : Covers parts []) :
      Covers (.param .path :: parts) rest

/-- The URL of parts without a parameter. -/
def literalOf : List Part → Option (List Char)
  | [] => some []
  | .literal key :: parts => (literalOf parts).map (key ++ ·)
  | .param _ :: _ => none

/-- A path without parameters covers its own text only. -/
theorem Covers.eq_literal {parts : List Part} {rest : List Char} (h : Covers parts rest) :
    ∀ url, literalOf parts = some url → rest = url := by
  induction h with
  | nil =>
      intro url hurl
      exact Option.some.inj hurl
  | literal key tail ih =>
      intro url hurl
      unfold literalOf at hurl
      obtain ⟨url', hurl', rfl⟩ := Option.map_eq_some_iff.mp hurl
      rw [ih url' hurl']
  | string segment tail ih =>
      intro url hurl
      cases hurl
  | path rest tail ih =>
      intro url hurl
      cases hurl

/-- No rule, or one of these whose parts make up the URL. -/
def Reached (paths : List (Nat × List Part)) (rest : List Char) (x : Match) : Prop :=
  x.1 = 0 ∨ ∃ parts, (x.1, parts) ∈ paths ∧ Covers parts rest

theorem Reached.mono {paths paths' : List (Nat × List Part)} {rest : List Char} {x : Match}
    (h : Reached paths rest x) (hsub : paths ⊆ paths') : Reached paths' rest x := by
  obtain hzero | ⟨parts, hmem, hcovers⟩ := h
  · exact .inl hzero
  · exact .inr ⟨parts, hsub hmem, hcovers⟩

/-- A child reaches what lies under it, for the URL its own part starts. -/
theorem Reached.under {c : Node} {url rest : List Char} {x : Match} (h : Reached c.paths rest x)
    (hpart : ∀ parts, Covers parts rest → Covers (c.part :: parts) url) :
    Reached (c.paths.map fun p => (p.1, c.part :: p.2)) url x := by
  obtain hzero | ⟨parts, hmem, hcovers⟩ := h
  · exact .inl hzero
  · exact .inr ⟨c.part :: parts, List.mem_map.mpr ⟨_, hmem, rfl⟩, hpart parts hcovers⟩

/-- What is found is one of the two. -/
theorem updateFound_cases (P : Match → Prop) {found ret : Match} (hfound : P found) (hret : P ret) :
    P (updateFound found ret) := by
  unfold updateFound
  split
  · exact hret
  · exact hfound

mutual
/-- **`find` answers with no rule or with one whose parts make up the URL.** -/
theorem Node.find_reached : (n : Node) → (params : List String) → (rest : List Char) →
    Reached n.paths rest (n.find params rest)
  | .mk i key param children, params, rest => by
      unfold Node.find Node.paths
      split
      · rename_i hrest
        rw [hrest]
        exact .inr ⟨[], List.mem_cons_self, .nil⟩
      · have hchildren := findIn_reached children params rest (0, []) [] (.inl rfl)
        exact hchildren.mono (List.subset_cons_self _ _)

/-- Among the children, `find` reaches one of their rules or none; the induction goes with that on
    the tree. -/
theorem findIn_reached : (cs : List Node) → (params : List String) → (rest : List Char) →
    (found : Match) → (seen : List (Nat × List Part)) → Reached (seen ++ pathsIn cs) rest found →
    Reached (seen ++ pathsIn cs) rest (findIn params rest found cs)
  | [], params, rest, found, seen, h => h
  | c :: cs, params, rest, found, seen, h => by
      -- what the child answers for the rest of the URL behind its own part
      have hc : ∀ ps r, (∀ parts, Covers parts r → Covers (c.part :: parts) rest) →
          Reached (seen ++ pathsIn (c :: cs)) rest (c.find ps r) := by
        intro ps r hpart
        refine ((c.find_reached ps r).under hpart).mono ?_
        unfold pathsIn
        intro p hp
        exact List.mem_append_right _ (List.mem_append_left _ hp)
      have happ : seen ++ pathsIn (c :: cs)
          = (seen ++ c.paths.map fun p => (p.1, c.part :: p.2)) ++ pathsIn cs := by
        simp [pathsIn]
      unfold findIn
      rw [happ] at h hc ⊢
      apply findIn_reached
      -- the child is tried as a string parameter, as a path or by its key
      split
      · rename_i hparam
        have hpart : c.part = .param .string := by simp [Node.part, hparam]
        dsimp only
        split
        · exact h
        · refine updateFound_cases (Reached _ rest) h (hc _ _ ?_)
          intro parts hcovers
          have hurl := hcovers.string (rest.takeWhile (· ≠ '/'))
          rw [List.prefix_iff_eq_append.mp (List.takeWhile_prefix _)] at hurl
          rw [hpart]
          exact hurl
      · rename_i hparam
        have hpart : c.part = .param .path := by simp [Node.part, hparam]
        refine updateFound_cases (Reached _ rest) h (hc _ _ ?_)
        intro parts hcovers
        rw [hpart]
        exact hcovers.path rest
      · rename_i hparam
        have hpart : c.part = .literal c.key := by simp [Node.part, hparam]
        split
        · rename_i hkey
          refine updateFound_cases (Reached _ rest) h (hc _ _ ?_)
          intro parts hcovers
          have hurl := hcovers.literal c.key
          rw [List.prefix_iff_eq_append.mp (List.isPrefixOf_iff_prefix.mp hkey)] at hurl
          rw [hpart]
          exact hurl
        · exact h
end

/-- `find` answers with no rule or with one of the trie. -/
theorem Node.find_mem_indices (n : Node) (params : List String) (rest : List Char) :
    (n.find params rest).1 = 0 ∨ (n.find params rest).1 ∈ n.indices := by
  obtain hzero | ⟨parts, hmem, -⟩ := n.find_reached params rest
  · exact .inl hzero
  · rw [← n.paths_indices]
    exact .inr (List.mem_map.mpr ⟨_, hmem, rfl⟩)

/-- All parameters are free of NULs. -/
def ParamsNoNul (params : List String) : Prop := ∀ p ∈ params, NoNul p

/-- A parameter is a piece of the URL. -/
theorem paramsNoNul_concat {params : List String} {part rest : List Char}
    (hparams : ParamsNoNul params) (hrest : '\x00' ∉ rest) (hpart : part ⊆ rest) :
    ParamsNoNul (params ++ [String.ofList part]) := by
  intro p hp
  obtain hp | hp := List.mem_append.mp hp
  · exact hparams p hp
  · obtain rfl := List.mem_singleton.mp hp
    unfold NoNul
    rw [String.toList_ofList]
    exact fun hmem => hrest (hpart hmem)

mutual
/-- The parameters of a match are pieces of the URL. -/
theorem Node.find_noNul : (n : Node) → (params : List String) → (rest : List Char) →
    ParamsNoNul params → '\x00' ∉ rest → ParamsNoNul (n.find params rest).2
  | .mk i key param children, params, rest, hparams, hrest => by
      unfold Node.find
      split
      · exact hparams
      · exact findIn_noNul children params rest (0, []) hparams hrest (fun p hp => by cases hp)

/-- So are the parameters of the children. -/
theorem findIn_noNul : (cs : List Node) → (params : List String) → (rest : List Char) →
    (found : Match) → ParamsNoNul params → '\x00' ∉ rest → ParamsNoNul found.2 →
    ParamsNoNul (findIn params rest found cs).2
  | [], params, rest, found, hparams, hrest, hfound => hfound
  | c :: cs, params, rest, found, hparams, hrest, hfound => by
      -- what is left of the URL has no NUL either
      have hdrop : ∀ n, '\x00' ∉ rest.drop n := by
        intro n hmem
        exact hrest (List.mem_of_mem_drop hmem)
      unfold findIn
      apply findIn_noNul cs params rest _ hparams hrest
      split
      · dsimp only
        split
        · exact hfound
        · refine updateFound_cases (fun x => ParamsNoNul x.2) hfound (c.find_noNul _ _ ?_ (hdrop _))
          exact paramsNoNul_concat hparams hrest (List.takeWhile_subset _)
      · refine updateFound_cases (fun x => ParamsNoNul x.2) hfound (c.find_noNul _ _ ?_ (by simp))
        exact paramsNoNul_concat hparams hrest (List.Subset.refl _)
      · split
        · exact updateFound_cases (fun x => ParamsNoNul x.2) hfound
            (c.find_noNul _ _ hparams (hdrop _))
        · exact hfound
end

/-! ## §2. The router. -/

/-- Outside its parameters a rule has no `<`, on which `add` would not come to an end, and no
    NUL, which it would take for the key of a parameter. -/
def Spelled (rule : String) : Bool :=
  (pieces rule.toList).all fun
    | .char c => c ≠ '<' && c ≠ '\x00'
    | .param _ => true

/-- A rule: its URL pattern, its methods, and what it runs. -/
structure Rule (ε : Type) where
  rule : String
  methods : List HttpMethod
  endpoint : ε
  spelled : Spelled rule = true := by rfl

/-- `has_trailing_slash`. -/
def Rule.hasTrailingSlash {ε : Type} (r : Rule ε) : Bool :=
  1 < r.rule.length && r.rule.toList.getLast? = some '/'

/-- `internal_add_rule_object`, with the rule's place in `rules`, which `add` takes as a
    `uint16_t`.  A rule with a trailing slash also gets `RULE_SPECIAL_REDIRECT_SLASH`.  That
    `add` throws on a rule that is there already is not modelled. -/
def addRule {ε : Type} (t : Node) (r : Rule ε × Nat) : Node :=
  let t := t.add r.1.rule (r.2 % 2 ^ 16)
  if r.1.hasTrailingSlash then t.add (String.ofList r.1.rule.toList.dropLast) 1 else t

/-- The rules of one method. -/
structure PerMethod (ε : Type) where
  rules : List ε
  trie : Node

/-- `Router::validate`: add the rules of a method in order, then optimize. -/
def perMethod {ε : Type} (all : List (Rule ε)) (m : HttpMethod) : PerMethod ε :=
  let mine := all.filter (fun r => r.methods.contains m)
  { rules := mine.map Rule.endpoint
    trie := ((mine.zipIdx 2).foldl addRule Node.empty).optimize }

/-- `per_methods_`. -/
abbrev Router (ε : Type) := HttpMethod → PerMethod ε

/-- `routing_handle_result`. -/
structure Found where
  ruleIndex : Nat
  params : List String
  method : HttpMethod

section
variable {ε : Type} (router : Router ε)

/-- `trie.find(url)` for a method. -/
def Router.find (m : HttpMethod) (url : String) : Match := (router m).trie.find [] url.toList

/-- The endpoint of a result; the two reserved indices have none. -/
def Router.endpoint (found : Found) : Option ε :=
  if found.ruleIndex < 2 then none else (router found.method).rules[found.ruleIndex - 2]?

/-- Index 0 is no rule's. -/
theorem Router.index_ne_zero {found : Found} {ep : ε} (h : router.endpoint found = some ep) :
    found.ruleIndex ≠ 0 := by
  intro hzero
  unfold Router.endpoint at h
  rw [hzero] at h
  cases h

/-- `Router::handle_initial`. -/
def handleInitial (req : Request) (res : Response) : Found × Response :=
  match req.method with
  | .head =>
      let own := router.find .head req.url
      if own.1 ≠ 0 then (⟨own.1, own.2, .head⟩, { res with skipBody := true })
      else
        -- HEAD is served by the rule for GET
        let get := router.find .get req.url
        if get.1 ≠ 0 then (⟨get.1, get.2, .get⟩, { res with skipBody := true })
        else (⟨0, [], .get⟩, (res.assign (.ofCode 404)).finish)
  | .options =>
      if req.url = "/*" then
        let served := HttpMethod.all.filter fun m => m ≠ .head ∧ !(router m).trie.children.isEmpty
        (⟨0, [], .options⟩, allowed res served)
      else
        let matching := HttpMethod.all.filter fun m => (router.find m req.url).1 ≠ 0
        if matching.isEmpty then (⟨0, [], .options⟩, (res.assign (.ofCode 404)).finish)
        else (⟨0, [], .options⟩, allowed res (matching.filter (· ≠ .head)))
  | m =>
      -- 405 if some other method has a rule for the URL, else 404
      let own := router.find m req.url
      if own.1 ≠ 0 then (⟨own.1, own.2, m⟩, res)
      else if HttpMethod.all.any fun m' => (router.find m' req.url).1 ≠ 0 then
        (⟨0, [], m⟩, { res with code := 405 }.finish)
      else (⟨0, [], m⟩, { res with code := 404 }.finish)
where
  /-- The 204 that lists methods. -/
  allowed (res : Response) (methods : List HttpMethod) : Response :=
    ((res.assign (.ofCode 204)).setHeader "Allow"
      (methods.foldl (fun s m => s ++ ", " ++ m.name) "OPTIONS, HEAD")).finish

/-- A request is found in the trie of some method, or not at all. -/
theorem handleInitial_found (req : Request) (res : Response) :
    (∃ m, (handleInitial router req res).1
      = ⟨(router.find m req.url).1, (router.find m req.url).2, m⟩)
    ∨ ((handleInitial router req res).1.ruleIndex = 0
      ∧ (handleInitial router req res).1.params = []) := by
  unfold handleInitial
  split
  · dsimp only
    split
    · exact .inl ⟨.head, rfl⟩
    · split
      · exact .inl ⟨.get, rfl⟩
      · exact .inr ⟨rfl, rfl⟩
  · split
    · exact .inr ⟨rfl, rfl⟩
    · dsimp only
      split <;> exact .inr ⟨rfl, rfl⟩
  · dsimp only
    split
    · exact .inl ⟨_, rfl⟩
    · split <;> exact .inr ⟨rfl, rfl⟩

/-- A rule of the request's own method is the one that is found. -/
theorem handleInitial_own {req : Request} (res : Response) {m : HttpMethod} {x : Match}
    (hmethod : req.method = m) (hhead : m ≠ .head) (hoptions : m ≠ .options)
    (hfind : router.find m req.url = x) (hsome : x.1 ≠ 0) :
    (handleInitial router req res).1 = ⟨x.1, x.2, m⟩ := by
  subst hmethod hfind
  unfold handleInitial
  split
  · contradiction
  · contradiction
  · dsimp only
    rw [if_pos hsome]

/-- What is found does not depend on the response. -/
theorem handleInitial_fst (req : Request) (res res' : Response) :
    (handleInitial router req res).1 = (handleInitial router req res').1 := by
  unfold handleInitial
  split
  · dsimp only
    split
    · rfl
    · split <;> rfl
  · split
    · rfl
    · dsimp only
      split <;> rfl
  · dsimp only
    split
    · rfl
    · split <;> rfl

/-- A routed request leaves the response alone; a HEAD asks for no body. -/
theorem handleInitial_routed {req : Request} {res : Response}
    (h : (handleInitial router req res).1.ruleIndex ≠ 0) :
    (handleInitial router req res).2
      = if req.method = .head then { res with skipBody := true } else res := by
  unfold handleInitial at h ⊢
  split at h
  · rename_i hmethod
    rw [if_pos hmethod]
    dsimp only at h ⊢
    split at h
    · rename_i hown
      rw [if_pos hown]
    · rename_i hown
      rw [if_neg hown]
      split at h
      · rename_i hget
        rw [if_pos hget]
      · exact absurd rfl h
  · split at h
    · exact absurd rfl h
    · dsimp only at h
      split at h <;> exact absurd rfl h
  · rename_i hhead hoptions
    rw [if_neg hhead]
    dsimp only at h ⊢
    split at h
    · rename_i hown
      rw [if_pos hown]
    · split at h <;> exact absurd rfl h

/-- How `handle_initial` answers a request without a route that is not a HEAD. -/
inductive Unrouted (res : Response) : Response → Prop where
  | allowed (methods : List HttpMethod) : Unrouted res (handleInitial.allowed res methods)
  | notFound : Unrouted res (res.assign (.ofCode 404)).finish
  | refused (code : Int) (isError : 400 ≤ code) : Unrouted res { res with code := code }.finish

/-- Either a rule of the method is found, or the response is complete. -/
theorem handleInitial_cases {req : Request} (res : Response) (hmethod : req.method ≠ .head) :
    ((handleInitial router req res).1.ruleIndex ≠ 0 ∧ (handleInitial router req res).2 = res)
      ∨ Unrouted res (handleInitial router req res).2 := by
  unfold handleInitial
  split
  · rename_i hhead
    exact absurd hhead hmethod
  · split
    · exact .inr (.allowed _)
    · dsimp only
      split
      · exact .inr .notFound
      · exact .inr (.allowed _)
  · dsimp only
    split
    · rename_i hown
      exact .inl ⟨hown, rfl⟩
    · split
      · exact .inr (.refused 405 (by decide))
      · exact .inr (.refused 404 (by decide))

/-- The router leaves `skip_body`. -/
theorem Unrouted.skipBody {res res' : Response} (h : Unrouted res res') :
    res'.skipBody = res.skipBody := by
  cases h with
  | allowed methods => exact Response.finish_skipBody _
  | notFound => exact Response.finish_skipBody _
  | refused code isError => exact Response.finish_skipBody _

/-- The answer has no body. -/
theorem Unrouted.body {res res' : Response} (h : Unrouted res res') (hbody : res.body = "")
    (hskip : res.skipBody = false) : res'.body = "" := by
  cases h with
  | allowed methods => exact (Response.finish_plain (by exact hskip)).1
  | notFound => exact (Response.finish_plain (by exact hskip)).1
  | refused code isError => exact (Response.finish_plain (by exact hskip)).1.trans hbody

/-- It answers 204 to `OPTIONS`, and an error to the others. -/
theorem Unrouted.code {res res' : Response} (h : Unrouted res res') :
    res'.code = 204 ∨ 400 ≤ res'.code := by
  cases h with
  | allowed methods => exact .inl (Response.finish_code _)
  | notFound =>
      right
      rw [Response.finish_code]
      show (400 : Int) ≤ 404
      decide
  | refused code isError =>
      right
      rw [Response.finish_code]
      exact isError

/-- The parameters of a request are pieces of its URL. -/
theorem handleInitial_noNul (req : Request) (res : Response) :
    ParamsNoNul (handleInitial router req res).1.params := by
  obtain ⟨m, hfound⟩ | ⟨-, hparams⟩ := handleInitial_found router req res
  · rw [hfound]
    exact Node.find_noNul _ _ _ (fun p hp => by cases hp) req.urlNoNul
  · rw [hparams]
    exact fun p hp => by cases hp

end

end OrderApi.Crow
