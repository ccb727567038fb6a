/-
  OrderApi.Crow.Trie
  ──────────────────
  **THE TRIE FINDS THE FIRST RULE THAT MATCHES.**

  A rule is matched with a URL on its own by `matchParts`.  A trie is seen as the set
  of its paths, each with a rule index at its end:

    • `Node.find_best`      `find` takes the least index of all paths that match;
    • `mem_paths_add`       `add` puts one path in and keeps all others;
    • `answers_optimize`    `optimize` joins letters, and every URL has the same
                            answers as before;
    • `router_finds_first_match`   together: the rule that was added first wins.
-/
import OrderApi.Crow.Router
import Mathlib.Data.List.TakeWhile

namespace OrderApi.Crow

/-! ## §1. A rule on its own. -/

/-- The string parameters with which the parts make up a URL, if they do.  Nothing is
    asked of an empty rest, so a part takes one character at least. -/
def matchParts : List Part → List Char → Option (List String)
  | [], rest => if rest = [] then some [] else none
  | part :: parts, rest =>
      if rest = [] then none
      else
        match part with
        | .literal key =>
            if key.isPrefixOf rest then matchParts parts (rest.drop key.length) else none
        | .param .string =>
            let segment := rest.takeWhile (· ≠ '/')
            if segment = [] then none
            else (matchParts parts (rest.drop segment.length)).map (String.ofList segment :: ·)
        | .param .path => (matchParts parts []).map (String.ofList rest :: ·)

def Piece.part : Piece → Part
  | .char c => .literal [c]
  | .param p => .param p

/-- The parts of a rule. -/
def ruleParts (rule : String) : List Part := (pieces rule.toList).map Piece.part

/-- What a part does with a URL: the parameter it takes, if any, and the rest. -/
inductive Takes : Part → List Char → List String → List Char → Prop where
  | literal {key rest : List Char} (h : key ++ rest ≠ []) :
      Takes (.literal key) (key ++ rest) [] rest
  | string {rest : List Char} (h : rest.takeWhile (· ≠ '/') ≠ []) :
      Takes (.param .string) rest [String.ofList (rest.takeWhile (· ≠ '/'))]
        (rest.drop (rest.takeWhile (· ≠ '/')).length)
  | path {rest : List Char} (h : rest ≠ []) : Takes (.param .path) rest [String.ofList rest] []

/-- What a part takes, the others go on behind. -/
theorem Takes.matchParts {part : Part} {url rest : List Char} {ps : List String}
    (h : Takes part url ps rest) (parts : List Part) :
    matchParts (part :: parts) url = (matchParts parts rest).map (ps ++ ·) := by
  cases h with
  | literal hne =>
      rename_i key
      have hprefix : key.isPrefixOf (key ++ rest) = true :=
        List.isPrefixOf_iff_prefix.mpr (List.prefix_append key rest)
      rw [Crow.matchParts, if_neg hne, if_pos hprefix, List.drop_left]
      cases Crow.matchParts parts rest <;> rfl
  | string hsegment =>
      have hne : url ≠ [] := fun h => hsegment (by rw [h]; rfl)
      rw [Crow.matchParts, if_neg hne]
      dsimp only
      rw [if_neg hsegment]
      rfl
  | path hne =>
      rw [Crow.matchParts, if_neg hne]
      rfl

/-- A rule and a URL letter by letter. -/
theorem matchParts_char (c d : Char) (parts : List Part) (url : List Char) :
    matchParts (.literal [c] :: parts) (d :: url)
      = if c = d then matchParts parts url else none := by
  by_cases h : c = d <;> simp [matchParts, h]

/-- A segment at the end of a URL is the parameter of a rule. -/
theorem matchParts_segment {segment : List Char} (hsome : segment ≠ []) (hslash : '/' ∉ segment) :
    matchParts [.param .string] segment = some [String.ofList segment] := by
  have hall : segment.takeWhile (· ≠ '/') = segment :=
    List.takeWhile_eq_self_iff.mpr fun c hc => by
      simpa using fun h : c = '/' => hslash (h ▸ hc)
  rw [matchParts, if_neg hsome]
  dsimp only
  rw [hall, if_neg hsome, List.drop_length]
  rfl

/-- At the end of the URL there is nothing for a part to take. -/
theorem matchParts_end (part : Part) (parts : List Part) :
    matchParts (part :: parts) [] = none := by
  unfold matchParts
  exact if_pos rfl

/-- A part takes something, or no rule with it in front matches. -/
theorem takes_or (part : Part) (url : List Char) :
    (∃ ps rest, Takes part url ps rest) ∨ ∀ parts, matchParts (part :: parts) url = none := by
  by_cases hne : url = []
  · right
    intro parts
    rw [hne, matchParts_end]
  · cases part with
    | literal key =>
        by_cases hprefix : key.isPrefixOf url = true
        · left
          obtain ⟨rest, rfl⟩ := List.isPrefixOf_iff_prefix.mp hprefix
          exact ⟨[], rest, .literal hne⟩
        · right
          intro parts
          rw [matchParts, if_neg hne, if_neg hprefix]
    | param p =>
        cases p with
        | path => exact .inl ⟨_, _, .path hne⟩
        | string =>
            by_cases hsegment : url.takeWhile (· ≠ '/') = []
            · right
              intro parts
              rw [matchParts, if_neg hne]
              dsimp only
              rw [if_pos hsegment]
            · exact .inl ⟨_, _, .string hsegment⟩

/-! ## §2. The least index. -/

/-- The answer with the least index other than 0, if there is one. -/
structure Best (S : Nat → List String → Prop) (x : Match) : Prop where
  found : x.1 = 0 ∨ S x.1 x.2
  least : ∀ i ps, S i ps → i ≠ 0 → x.1 ≠ 0 ∧ x.1 ≤ i

theorem Best.congr {S T : Nat → List String → Prop} {x : Match} (h : Best S x)
    (hiff : ∀ i ps, S i ps ↔ T i ps) : Best T x :=
  ⟨h.found.imp_right (hiff _ _).mp, fun i ps ht => h.least i ps ((hiff i ps).mpr ht)⟩

/-- `update_found` keeps the better one. -/
theorem Best.update {S T : Nat → List String → Prop} {x y : Match} (hx : Best S x)
    (hy : Best T y) : Best (fun i ps => S i ps ∨ T i ps) (updateFound x y) := by
  unfold updateFound
  by_cases h : y.1 ≠ 0 ∧ (x.1 = 0 ∨ y.1 < x.1)
  · rw [if_pos h]
    refine ⟨.inr (.inr (hy.found.resolve_left h.1)), ?_⟩
    rintro i ps (hs | ht) hi
    · obtain ⟨hzero, hle⟩ := hx.least i ps hs hi
      exact ⟨h.1, by omega⟩
    · exact hy.least i ps ht hi
  · rw [if_neg h]
    refine ⟨hx.found.imp_right .inl, ?_⟩
    rintro i ps (hs | ht) hi
    · exact hx.least i ps hs hi
    · obtain ⟨hzero, hle⟩ := hy.least i ps ht hi
      omega

/-! ## §3. `find`. -/

/-- The answers of some paths for a URL. -/
def Answers (paths : List (Nat × List Part)) (url : List Char) (i : Nat) (ps : List String) :
    Prop :=
  ∃ parts, (i, parts) ∈ paths ∧ matchParts parts url = some ps

/-- Paths with one more part in front. -/
def under (part : Part) (paths : List (Nat × List Part)) : List (Nat × List Part) :=
  paths.map fun p => (p.1, part :: p.2)

theorem pathsIn_cons (c : Node) (cs : List Node) :
    pathsIn (c :: cs) = under c.part c.paths ++ pathsIn cs := by
  rw [pathsIn]
  rfl

/-- A path under a part begins with it. -/
theorem mem_under {part : Part} {paths : List (Nat × List Part)} {i : Nat} {parts : List Part} :
    (i, parts) ∈ under part paths ↔ ∃ q, (i, q) ∈ paths ∧ parts = part :: q := by
  unfold under
  rw [List.mem_map]
  constructor
  · rintro ⟨⟨j, q⟩, hmem, heq⟩
    obtain ⟨rfl, rfl⟩ := Prod.mk.inj heq
    exact ⟨q, hmem, rfl⟩
  · rintro ⟨q, hmem, rfl⟩
    exact ⟨(i, q), hmem, rfl⟩

/-- The part in front takes something first. -/
theorem Takes.answers {part : Part} {url rest : List Char} {ps : List String}
    (h : Takes part url ps rest) {paths : List (Nat × List Part)} {i : Nat} {qs : List String} :
    Answers (under part paths) url i qs ↔ ∃ rs, qs = ps ++ rs ∧ Answers paths rest i rs := by
  constructor
  · rintro ⟨parts, hmem, hmatch⟩
    obtain ⟨q, hq, rfl⟩ := mem_under.mp hmem
    rw [h.matchParts] at hmatch
    obtain ⟨rs, hrs, rfl⟩ := Option.map_eq_some_iff.mp hmatch
    exact ⟨rs, rfl, q, hq, hrs⟩
  · rintro ⟨rs, rfl, q, hmem, hmatch⟩
    refine ⟨part :: q, mem_under.mpr ⟨q, hmem, rfl⟩, ?_⟩
    rw [h.matchParts, hmatch]
    rfl

/-- The answers of a child: its own part takes something first. -/
theorem Best.behind {c : Node} {url rest : List Char} {params ps : List String} {x : Match}
    (htakes : Takes c.part url ps rest)
    (h : Best (fun i qs => ∃ rs, qs = (params ++ ps) ++ rs ∧ Answers c.paths rest i rs) x) :
    Best (fun i qs => ∃ rs, qs = params ++ rs ∧ Answers (under c.part c.paths) url i rs) x := by
  refine h.congr fun i qs => ?_
  constructor
  · rintro ⟨rs, rfl, hans⟩
    exact ⟨ps ++ rs, List.append_assoc _ _ _, htakes.answers.mpr ⟨rs, rfl, hans⟩⟩
  · rintro ⟨rs, rfl, hans⟩
    obtain ⟨rs', rfl, hans'⟩ := htakes.answers.mp hans
    exact ⟨rs', (List.append_assoc _ _ _).symm, hans'⟩

/-- A part that takes nothing has no answers behind it. -/
theorem answers_none {part : Part} {paths : List (Nat × List Part)} {url : List Char}
    (h : ∀ parts, matchParts (part :: parts) url = none) (i : Nat) (ps : List String) :
    ¬ Answers (under part paths) url i ps := by
  rintro ⟨parts, hmem, hmatch⟩
  obtain ⟨q, -, rfl⟩ := mem_under.mp hmem
  rw [h] at hmatch
  cases hmatch

theorem answers_append {paths paths' : List (Nat × List Part)} {url : List Char} {i : Nat}
    {ps : List String} :
    Answers (paths ++ paths') url i ps ↔ Answers paths url i ps ∨ Answers paths' url i ps := by
  unfold Answers
  simp only [List.mem_append, or_and_right, exists_or]

/-- A path goes through one of the children. -/
theorem mem_pathsIn {cs : List Node} {i : Nat} {parts : List Part} :
    (i, parts) ∈ pathsIn cs ↔ ∃ c ∈ cs, ∃ q, (i, q) ∈ c.paths ∧ parts = c.part :: q := by
  induction cs with
  | nil => simp [pathsIn]
  | cons c cs ih =>
      rw [pathsIn_cons, List.mem_append, ih, mem_under]
      simp only [List.mem_cons, or_and_right, exists_or, exists_eq_left]

/-- What a child adds to the answers. -/
theorem Best.child {S : Nat → List String → Prop} {c : Node} {url : List Char}
    {params : List String} {found found' : Match} (h : Best S found)
    (hturn : (found' = found ∧ ∀ parts, matchParts (c.part :: parts) url = none)
      ∨ ∃ ps rest x, Takes c.part url ps rest ∧ found' = updateFound found x
        ∧ Best (fun i qs => ∃ rs, qs = (params ++ ps) ++ rs ∧ Answers c.paths rest i rs) x) :
    Best (fun i ps => S i ps ∨ ∃ qs, ps = params ++ qs
      ∧ Answers (under c.part c.paths) url i qs) found' := by
  obtain ⟨rfl, hnone⟩ | ⟨ps, rest, x, htakes, rfl, hx⟩ := hturn
  · refine h.congr fun i ps => ⟨.inl, ?_⟩
    rintro (hs | ⟨qs, -, hans⟩)
    · exact hs
    · exact absurd hans (answers_none hnone i qs)
  · exact h.update (hx.behind htakes)

mutual
/-- **`find` takes the least index of all paths that match.** -/
theorem Node.find_best : (n : Node) → (params : List String) → (rest : List Char) →
    Best (fun i ps => ∃ qs, ps = params ++ qs ∧ Answers n.paths rest i qs) (n.find params rest)
  | .mk i key param children, params, rest => by
      unfold Node.find Node.paths
      by_cases hrest : rest = []
      · rw [if_pos hrest, hrest]
        refine ⟨.inr ⟨[], (List.append_nil _).symm, [], List.mem_cons_self, rfl⟩, ?_⟩
        rintro j ps ⟨qs, -, parts, hmem, hmatch⟩ hj
        cases parts with
        | cons part parts =>
            rw [matchParts_end] at hmatch
            cases hmatch
        | nil =>
            obtain heq | hin := List.mem_cons.mp hmem
            · obtain ⟨rfl, -⟩ := Prod.mk.inj heq
              exact ⟨hj, Nat.le_refl _⟩
            · obtain ⟨c, -, q, -, heq⟩ := mem_pathsIn.mp hin
              exact absurd heq.symm (List.cons_ne_nil _ _)
      · rw [if_neg hrest]
        have hnone : Best (fun _ _ => False) (0, []) :=
          ⟨.inl rfl, fun _ _ h => h.elim⟩
        refine (findIn_best children params rest hrest (0, []) _ hnone).congr fun j ps => ?_
        rw [false_or]
        refine exists_congr fun qs => and_congr_right fun _ => ?_
        constructor
        · rintro ⟨parts, hmem, hmatch⟩
          exact ⟨parts, List.mem_cons_of_mem _ hmem, hmatch⟩
        · rintro ⟨parts, hmem, hmatch⟩
          obtain heq | hin := List.mem_cons.mp hmem
          · -- the node itself is no answer before the end of the URL
            obtain ⟨-, rfl⟩ := Prod.mk.inj heq
            rw [matchParts, if_neg hrest] at hmatch
            cases hmatch
          · exact ⟨parts, hin, hmatch⟩

/-- **Among the children** the least index wins, with the parameters of its rule; the induction goes
    with that on the tree. -/
theorem findIn_best : (cs : List Node) → (params : List String) → (rest : List Char) →
    rest ≠ [] → (found : Match) → (S : Nat → List String → Prop) → Best S found →
    Best (fun i ps => S i ps ∨ ∃ qs, ps = params ++ qs ∧ Answers (pathsIn cs) rest i qs)
      (findIn params rest found cs)
  | [], params, rest, _, found, S, h => by
      refine h.congr fun i ps => ⟨.inl, ?_⟩
      rintro (hs | ⟨qs, -, parts, hmem, -⟩)
      · exact hs
      · exact absurd hmem List.not_mem_nil
  | c :: cs, params, rest, hrest, found, S, h => by
      unfold findIn
      rw [pathsIn_cons]
      refine (findIn_best cs params rest hrest _ _
        (@Best.child S c rest params found _ h ?_)).congr fun i ps => ?_
      · -- the child is tried as a string parameter, as a path or by its key
        cases hparam : c.param with
        | none =>
            have hpart : c.part = .literal c.key := by simp [Node.part, hparam]
            rw [hpart]
            by_cases hprefix : c.key.isPrefixOf rest = true
            · right
              obtain ⟨tail, rfl⟩ := List.isPrefixOf_iff_prefix.mp hprefix
              refine ⟨[], tail, c.find params tail, .literal hrest, ?_, ?_⟩
              · dsimp only
                rw [if_pos hprefix, List.drop_left]
              · rw [List.append_nil]
                exact c.find_best params tail
            · left
              dsimp only
              rw [if_neg hprefix]
              refine ⟨rfl, fun parts => ?_⟩
              rw [matchParts, if_neg hrest, if_neg hprefix]
        | some p =>
            cases p with
            | path =>
                have hpart : c.part = .param .path := by simp [Node.part, hparam]
                rw [hpart]
                exact .inr ⟨_, _, _, .path hrest, rfl, c.find_best _ _⟩
            | string =>
                have hpart : c.part = .param .string := by simp [Node.part, hparam]
                rw [hpart]
                dsimp only
                by_cases hsegment : rest.takeWhile (· ≠ '/') = []
                · left
                  rw [if_pos hsegment]
                  refine ⟨rfl, fun parts => ?_⟩
                  rw [matchParts, if_neg hrest]
                  dsimp only
                  rw [if_pos hsegment]
                · rw [if_neg hsegment]
                  exact .inr ⟨_, _, _, .string hsegment, rfl, c.find_best _ _⟩
      · rw [or_assoc]
        refine or_congr_right ?_
        simp only [answers_append, and_or_left, exists_or]
end

/-! ## §4. `add`. -/

/-- A node as `add` makes it: for one character, or for a parameter. -/
def Node.IsUnit (n : Node) : Prop :=
  (∃ c, n.key = [c] ∧ n.param = none) ∨ (n.key = [] ∧ ∃ p, n.param = some p)

/-- A trie that is not optimized yet. -/
inductive Node.Grown : Node → Prop where
  | mk {i : Nat} {key : List Char} {param : Option ParamType} {children : List Node}
      (units : ∀ c ∈ children, c.IsUnit) (grown : ∀ c ∈ children, c.Grown) :
      Grown (.mk i key param children)

theorem grown_empty : Node.empty.Grown :=
  .mk (fun _ hc => absurd hc List.not_mem_nil) fun _ hc => absurd hc List.not_mem_nil

theorem Piece.fresh_unit (p : Piece) : p.fresh.IsUnit := by
  cases p with
  | char c => exact .inl ⟨c, rfl, rfl⟩
  | param p => exact .inr ⟨rfl, p, rfl⟩

theorem Piece.fresh_grown (p : Piece) : p.fresh.Grown := by
  cases p <;> exact .mk (fun _ hc => absurd hc List.not_mem_nil) fun _ hc =>
    absurd hc List.not_mem_nil

theorem Piece.fresh_part (p : Piece) : p.fresh.part = p.part := by
  cases p <;> rfl

theorem Piece.fresh_paths (p : Piece) : p.fresh.paths = [(0, [])] := by
  cases p <;> rfl

/-- A piece leads to the child for it. -/
theorem Piece.leadsTo_part {p : Piece} {n : Node} (hn : n.IsUnit) (h : p.leadsTo n = true) :
    n.part = p.part := by
  unfold Node.part
  cases p with
  | char c =>
      have hkey : n.key.head? = some c := by simpa [Piece.leadsTo] using h
      obtain ⟨d, hd, hparam⟩ | ⟨hd, -⟩ := hn
      · rw [hd] at hkey
        obtain rfl := Option.some.inj hkey
        rw [hparam, hd]
        rfl
      · rw [hd] at hkey
        cases hkey
  | param q =>
      have hparam : n.param = some q := by simpa [Piece.leadsTo] using h
      rw [hparam]
      rfl

/-- `add` goes down one child, or makes one. -/
theorem addPieces_cons (i : Nat) (p : Piece) (ps : List Piece) (j : Nat) (key : List Char)
    (param : Option ParamType) (children : List Node) :
    (∃ before c after, children = before ++ c :: after ∧ p.leadsTo c = true
      ∧ addPieces i (p :: ps) (.mk j key param children)
        = .mk j key param (before ++ addPieces i ps c :: after))
    ∨ addPieces i (p :: ps) (.mk j key param children)
        = .mk j key param (children ++ [addPieces i ps p.fresh]) := by
  rw [addPieces]
  cases hfind : children.findIdx? p.leadsTo with
  | none => exact .inr rfl
  | some k =>
      obtain ⟨hlt, hleads, -⟩ := List.findIdx?_eq_some_iff_getElem.mp hfind
      refine .inl ⟨children.take k, children[k], children.drop (k + 1), ?_, hleads, ?_⟩
      · rw [← List.drop_eq_getElem_cons hlt, List.take_append_drop]
      · dsimp only
        rw [List.modify_eq_take_cons_drop hlt]

/-- `add` does not change what a node takes. -/
theorem addPieces_part (i : Nat) (ps : List Piece) (n : Node) :
    (addPieces i ps n).part = n.part ∧ ((addPieces i ps n).IsUnit ↔ n.IsUnit) := by
  obtain ⟨j, key, param, children⟩ := n
  cases ps with
  | nil => exact ⟨rfl, Iff.rfl⟩
  | cons p ps =>
      obtain ⟨before, c, after, -, -, hadd⟩ | hadd := addPieces_cons i p ps j key param children
      · rw [hadd]
        exact ⟨rfl, Iff.rfl⟩
      · rw [hadd]
        exact ⟨rfl, Iff.rfl⟩

/-- One child is replaced by another of its kind. -/
theorem forall_replaced {P : Node → Prop} {before after : List Node} {c c' : Node}
    (h : ∀ d ∈ before ++ c :: after, P d) (hc : P c → P c') :
    ∀ d ∈ before ++ c' :: after, P d := by
  intro d hd
  obtain hin | hin := List.mem_append.mp hd
  · exact h d (List.mem_append_left _ hin)
  · obtain rfl | hin := List.mem_cons.mp hin
    · exact hc (h c (List.mem_append_right _ List.mem_cons_self))
    · exact h d (List.mem_append_right _ (List.mem_cons_of_mem _ hin))

/-- `add` keeps to nodes for one character or one parameter. -/
theorem grown_addPieces {i : Nat} {ps : List Piece} {n : Node} (h : n.Grown) :
    (addPieces i ps n).Grown := by
  induction ps generalizing n with
  | nil =>
      obtain ⟨units, grown⟩ := h
      exact .mk units grown
  | cons p ps ih =>
      obtain ⟨units, grown⟩ := h
      rename_i j key param children
      obtain ⟨before, c, after, rfl, -, hadd⟩ | hadd := addPieces_cons i p ps j key param children
      · rw [hadd]
        exact .mk (forall_replaced units (addPieces_part i ps c).2.mpr) (forall_replaced grown ih)
      · have hunit := (addPieces_part i ps p.fresh).2.mpr p.fresh_unit
        have hgrown := ih p.fresh_grown
        rw [hadd]
        refine .mk ?_ ?_
        · exact List.forall_mem_append.mpr ⟨units, by simpa using hunit⟩
        · exact List.forall_mem_append.mpr ⟨grown, by simpa using hgrown⟩

/-- The paths of a node. -/
theorem mem_paths_mk {j k : Nat} {key : List Char} {param : Option ParamType}
    {children : List Node} {parts : List Part} :
    (j, parts) ∈ (Node.mk k key param children).paths
      ↔ (j = k ∧ parts = []) ∨ ∃ c ∈ children, ∃ q, (j, q) ∈ c.paths ∧ parts = c.part :: q := by
  rw [Node.paths, List.mem_cons, Prod.mk.injEq, mem_pathsIn]

theorem exists_mem_replaced {Q : Node → Prop} {before after : List Node} {c : Node} :
    (∃ d ∈ before ++ c :: after, Q d) ↔ (∃ d ∈ before ++ after, Q d) ∨ Q c := by
  simp only [List.mem_append, List.mem_cons, or_and_right, exists_or, exists_eq_left]
  rw [or_left_comm, or_comm]

/-- **`add` puts one path in**, where there is no rule yet. -/
theorem mem_paths_add {i : Nat} {ps : List Piece} {n : Node} (hn : n.Grown)
    (hnew : ∀ j, (j, ps.map Piece.part) ∈ n.paths → j = 0) {j : Nat} (hj : j ≠ 0)
    (parts : List Part) :
    (j, parts) ∈ (addPieces i ps n).paths
      ↔ (j, parts) ∈ n.paths ∨ (j = i ∧ parts = ps.map Piece.part) := by
  induction ps generalizing n parts with
  | nil =>
      obtain ⟨k, key, param, children⟩ := n
      have hzero : k = 0 := hnew k List.mem_cons_self
      rw [addPieces, Node.paths, Node.paths, List.mem_cons, List.mem_cons, Prod.mk.injEq,
        Prod.mk.injEq, hzero]
      simp only [hj, false_and, false_or]
      rw [or_comm]
      rfl
  | cons p ps ih =>
      obtain ⟨units, grown⟩ := hn
      rename_i k key param children
      -- the child that the path goes through has it from then on
      have hchild : ∀ c : Node, c.part = p.part → c.Grown →
          (∀ j, (j, ps.map Piece.part) ∈ c.paths → j = 0) →
          ((∃ q, (j, q) ∈ (addPieces i ps c).paths ∧ parts = (addPieces i ps c).part :: q)
            ↔ (∃ q, (j, q) ∈ c.paths ∧ parts = c.part :: q)
              ∨ (j = i ∧ parts = (p :: ps).map Piece.part)) := by
        intro c hpart hgrown hnewc
        simp only [ih hgrown hnewc, (addPieces_part i ps c).1, or_and_right, exists_or]
        refine or_congr_right ?_
        rw [hpart, List.map_cons]
        constructor
        · rintro ⟨q, ⟨rfl, rfl⟩, rfl⟩
          exact ⟨rfl, rfl⟩
        · rintro ⟨rfl, rfl⟩
          exact ⟨_, ⟨rfl, rfl⟩, rfl⟩
      obtain ⟨before, c, after, rfl, hleads, hadd⟩ | hadd :=
        addPieces_cons i p ps k key param children
      · have hmem : c ∈ before ++ c :: after := List.mem_append_right _ List.mem_cons_self
        have hpart : c.part = p.part := p.leadsTo_part (units c hmem) hleads
        have hc := hchild c hpart (grown c hmem) fun j hin => hnew j
          (mem_paths_mk.mpr (.inr ⟨c, hmem, _, hin, by rw [hpart]; rfl⟩))
        rw [hadd, mem_paths_mk, mem_paths_mk, exists_mem_replaced, exists_mem_replaced, hc,
          or_assoc, or_assoc]
      · have hc := hchild p.fresh p.fresh_part p.fresh_grown fun j hin => by
          rw [p.fresh_paths, List.mem_singleton] at hin
          exact (Prod.mk.inj hin).1
        have hnone : ¬ ∃ q, (j, q) ∈ p.fresh.paths ∧ parts = p.fresh.part :: q := by
          rintro ⟨q, hin, -⟩
          rw [p.fresh_paths, List.mem_singleton] at hin
          exact hj (Prod.mk.inj hin).1
        rw [hadd, mem_paths_mk, mem_paths_mk, exists_mem_replaced, List.append_nil, hc, or_assoc]
        simp only [hnone, false_or]

/-! ## §5. `optimize`. -/

/-- Two pieces of text one after the other. -/
theorem matchParts_joined (a : List Char) {b : List Char} (hb : b ≠ []) (parts : List Part)
    (url : List Char) :
    matchParts (.literal a :: .literal b :: parts) url
      = matchParts (.literal (a ++ b) :: parts) url := by
  have hboth : ∀ rest, matchParts (.literal a :: .literal b :: parts) (a ++ (b ++ rest))
      = matchParts (.literal (a ++ b) :: parts) (a ++ (b ++ rest)) := by
    intro rest
    have htakes : Takes (.literal (a ++ b)) (a ++ b ++ rest) [] rest := .literal (by simp [hb])
    rw [(Takes.literal (by simp [hb])).matchParts, (Takes.literal (by simp [hb])).matchParts,
      ← List.append_assoc, htakes.matchParts]
    cases matchParts parts rest <;> rfl
  obtain ⟨ps, rest, htakes⟩ | hnone := takes_or (.literal (a ++ b)) url
  · cases htakes
    rw [List.append_assoc]
    exact hboth rest
  · obtain ⟨ps, rest, htakes⟩ | hnone' := takes_or (.literal a) url
    · cases htakes with
      | literal hne =>
          obtain ⟨ps', rest', htakes'⟩ | hnone' := takes_or (.literal b) rest
          · cases htakes'
            exact hboth rest'
          · rw [hnone, (Takes.literal hne).matchParts, hnone']
            rfl
    · rw [hnone, hnone']

/-- Behind the same part the same answers stay the same. -/
theorem answers_under_congr {part : Part} {paths paths' : List (Nat × List Part)} {i : Nat}
    (h : ∀ url ps, Answers paths url i ps ↔ Answers paths' url i ps) (url : List Char)
    (ps : List String) :
    Answers (under part paths) url i ps ↔ Answers (under part paths') url i ps := by
  obtain ⟨qs, rest, htakes⟩ | hnone := takes_or part url
  · rw [htakes.answers, htakes.answers]
    simp only [h]
  · exact iff_of_false (answers_none hnone i ps) (answers_none hnone i ps)

/-- The same children, the same node. -/
theorem answers_node_congr {i k : Nat} {key key' : List Char} {param param' : Option ParamType}
    {cs cs' : List Node}
    (h : ∀ url ps, Answers (pathsIn cs) url i ps ↔ Answers (pathsIn cs') url i ps)
    (url : List Char) (ps : List String) :
    Answers (Node.mk k key param cs).paths url i ps
      ↔ Answers (Node.mk k key' param' cs').paths url i ps := by
  have hsplit : ∀ cs : List Node, (k, []) :: pathsIn cs = [(k, [])] ++ pathsIn cs := fun _ => rfl
  rw [Node.paths, Node.paths, hsplit, hsplit, answers_append, answers_append, h]

/-- What answers is the same child by child. -/
theorem answers_cons_congr {i : Nat} {c c' : Node} {cs cs' : List Node}
    (hc : ∀ url ps, Answers (under c.part c.paths) url i ps
      ↔ Answers (under c'.part c'.paths) url i ps)
    (hcs : ∀ url ps, Answers (pathsIn cs) url i ps ↔ Answers (pathsIn cs') url i ps)
    (url : List Char) (ps : List String) :
    Answers (pathsIn (c :: cs)) url i ps ↔ Answers (pathsIn (c' :: cs')) url i ps := by
  rw [pathsIn_cons, pathsIn_cons, answers_append, answers_append, hc, hcs]

/-- A node that only leads to one child is merged with it. -/
theorem answers_merged {i : Nat} (hi : i ≠ 0) (key : List Char) {c : Node} (hc : c.IsUnit)
    (hparam : c.param = none) (url : List Char) (ps : List String) :
    Answers (under (.literal (key ++ c.key)) c.paths) url i ps
      ↔ Answers (under (.literal key) (Node.mk 0 key none [c]).paths) url i ps := by
  have hkey : c.key ≠ [] := by
    obtain ⟨d, hd, -⟩ | ⟨-, p, hp⟩ := hc
    · rw [hd]
      exact List.cons_ne_nil _ _
    · rw [hparam] at hp
      cases hp
  have hpart : c.part = .literal c.key := by simp [Node.part, hparam]
  constructor
  · rintro ⟨parts, hmem, hmatch⟩
    obtain ⟨q, hq, rfl⟩ := mem_under.mp hmem
    rw [← matchParts_joined key hkey] at hmatch
    refine ⟨_, mem_under.mpr ⟨.literal c.key :: q, ?_, rfl⟩, hmatch⟩
    exact mem_paths_mk.mpr (.inr ⟨c, List.mem_cons_self, q, hq, by rw [hpart]⟩)
  · rintro ⟨parts, hmem, hmatch⟩
    obtain ⟨q, hq, rfl⟩ := mem_under.mp hmem
    obtain ⟨rfl, -⟩ | ⟨d, hd, q', hq', rfl⟩ := mem_paths_mk.mp hq
    · exact absurd rfl hi
    · obtain rfl := List.mem_singleton.mp hd
      rw [hpart, matchParts_joined key hkey] at hmatch
      exact ⟨_, mem_under.mpr ⟨q', hq', rfl⟩, hmatch⟩

mutual
/-- **`optimizeNode` leaves the answers as they are**, for the node with the key it has by
    then. -/
theorem Node.answers_optimizeNode {i : Nat} (hi : i ≠ 0) : (n : Node) → (key : List Char) →
    n.Grown → (url : List Char) → (ps : List String) →
    (Answers (under (n.optimizeNode key).part (n.optimizeNode key).paths) url i ps
      ↔ Answers (under (Node.mk 0 key n.param []).part n.paths) url i ps)
  | .mk k _ param [], key, _, url, ps => by
      rw [Node.optimizeNode]
      rfl
  | .mk k _ param [c], key, hn, url, ps => by
      obtain ⟨units, grown⟩ := hn
      have hunit := units c List.mem_cons_self
      have hgrown := grown c List.mem_cons_self
      rw [Node.optimizeNode]
      by_cases h : k = 0 ∧ param = none ∧ c.param = none
      · obtain ⟨rfl, rfl, hparam⟩ := h
        rw [if_pos ⟨rfl, rfl, hparam⟩, c.answers_optimizeNode hi (key ++ c.key) hgrown]
        have hpart : (Node.mk 0 (key ++ c.key) c.param []).part = .literal (key ++ c.key) := by
          rw [hparam]
          rfl
        rw [hpart, answers_merged hi key hunit hparam]
        rfl
      · rw [if_neg h]
        refine answers_under_congr (answers_node_congr ?_) url ps
        refine answers_cons_congr (fun url ps => ?_) fun _ _ => Iff.rfl
        exact c.answers_optimizeNode hi c.key hgrown url ps
  | .mk k _ param (c :: d :: cs), key, hn, url, ps => by
      obtain ⟨-, grown⟩ := hn
      rw [Node.optimizeNode]
      refine answers_under_congr (answers_node_congr ?_) url ps
      exact answers_optimizeNodes hi (c :: d :: cs) grown

/-- `optimize` changes no answer of the children; the induction goes with that on the tree. -/
theorem answers_optimizeNodes {i : Nat} (hi : i ≠ 0) : (cs : List Node) →
    (∀ c ∈ cs, c.Grown) → (url : List Char) → (ps : List String) →
    (Answers (pathsIn (optimizeNodes cs)) url i ps ↔ Answers (pathsIn cs) url i ps)
  | [], _, url, ps => by
      rw [optimizeNodes]
  | c :: cs, grown, url, ps => by
      rw [optimizeNodes]
      refine answers_cons_congr (fun url ps => ?_) (fun url ps => ?_) url ps
      · exact c.answers_optimizeNode hi c.key (grown c List.mem_cons_self) url ps
      · exact answers_optimizeNodes hi cs (fun d hd => grown d (List.mem_cons_of_mem _ hd)) url ps
end

/-- **`optimize` changes no answer.** -/
theorem answers_optimize {i : Nat} (hi : i ≠ 0) {n : Node} (hn : n.Grown) (url : List Char)
    (ps : List String) : Answers n.optimize.paths url i ps ↔ Answers n.paths url i ps := by
  obtain ⟨-, grown⟩ := hn
  rw [Node.optimize]
  exact answers_node_congr (answers_optimizeNodes hi _ grown) url ps

/-! ## §6. The rules of a method. -/

/-- Where no rule is found there are no parameters. -/
theorem updateFound_zero {found : Match} (h : found.1 = 0 → found.2 = []) (ret : Match) :
    (updateFound found ret).1 = 0 → (updateFound found ret).2 = [] := by
  unfold updateFound
  split
  · rename_i hret
    exact fun hzero => absurd hzero hret.1
  · exact h

/-- So it is among the children. -/
theorem findIn_zero (cs : List Node) (params : List String) (rest : List Char) (found : Match)
    (h : found.1 = 0 → found.2 = []) :
    (findIn params rest found cs).1 = 0 → (findIn params rest found cs).2 = [] := by
  induction cs generalizing found with
  | nil => exact h
  | cons c cs ih =>
      unfold findIn
      refine ih _ ?_
      cases c.param with
      | none =>
          dsimp only
          split
          · exact updateFound_zero h _
          · exact h
      | some p =>
          cases p with
          | path => exact updateFound_zero h _
          | string =>
              dsimp only
              split
              · exact h
              · exact updateFound_zero h _

/-- Without a rule there are no parameters. -/
theorem find_zero (n : Node) (rest : List Char) (h : (n.find [] rest).1 = 0) :
    n.find [] rest = (0, []) := by
  have hparams : (n.find [] rest).2 = [] := by
    obtain ⟨k, key, param, children⟩ := n
    unfold Node.find at h ⊢
    by_cases hrest : rest = []
    · rw [if_pos hrest]
    · rw [if_neg hrest] at h ⊢
      exact findIn_zero children [] rest (0, []) (fun _ => rfl) h
  exact Prod.ext h hparams

/-- The paths of a trie are the rules that were added. -/
theorem paths_built {ε : Type} (rs : List (Rule ε × Nat)) {t : Node} (ht : t.Grown)
    (hdistinct : (rs.map fun r => ruleParts r.1.rule).Nodup)
    (hnew : ∀ r ∈ rs, ∀ j, (j, ruleParts r.1.rule) ∈ t.paths → j = 0) :
    (rs.foldl (fun t r => t.add r.1.rule r.2) t).Grown
      ∧ ∀ j, j ≠ 0 → ∀ parts, (j, parts) ∈ (rs.foldl (fun t r => t.add r.1.rule r.2) t).paths
        ↔ (j, parts) ∈ t.paths ∨ ∃ r ∈ rs, j = r.2 ∧ parts = ruleParts r.1.rule := by
  induction rs generalizing t with
  | nil => exact ⟨ht, fun j _ parts => by simp⟩
  | cons r rs ih =>
      rw [List.map_cons, List.nodup_cons] at hdistinct
      have hadd := fun (j : Nat) (hj : j ≠ 0) =>
        @mem_paths_add r.2 (pieces r.1.rule.toList) t ht (hnew r List.mem_cons_self) j hj
      have hgrown : (t.add r.1.rule r.2).Grown := grown_addPieces ht
      obtain ⟨hbuilt, hpaths⟩ := ih hgrown hdistinct.2 fun r' hr' j hin => by
        by_cases hj : j = 0
        · exact hj
        · obtain hold | ⟨-, heq⟩ := (hadd j hj _).mp hin
          · exact hnew r' (List.mem_cons_of_mem _ hr') j hold
          · exact absurd (List.mem_map.mpr ⟨r', hr', heq⟩) hdistinct.1
      refine ⟨hbuilt, fun j hj parts => ?_⟩
      rw [List.foldl_cons, hpaths j hj parts]
      unfold Node.add
      rw [hadd j hj parts, or_assoc]
      simp only [List.mem_cons, or_and_right, exists_or, exists_eq_left]
      rfl

/-- The index and the parameters with which a rule answers a URL. -/
def answer {ε : Type} (url : List Char) (r : Rule ε × Nat) : Option Match :=
  (matchParts (ruleParts r.1.rule) url).map fun ps => (r.2, ps)

/-- A rule answers with its own index. -/
theorem answer_fst {ε : Type} {url : List Char} {r : Rule ε × Nat} {y : Match}
    (h : answer url r = some y) : y.1 = r.2 := by
  obtain ⟨ps, -, rfl⟩ := Option.map_eq_some_iff.mp h
  rfl

/-- Of answers with increasing indices the first one is the best. -/
theorem Best.first {ε : Type} {rs : List (Rule ε × Nat)} {url : List Char} {x : Match}
    {S : Nat → List String → Prop} (h : Best S x)
    (hsorted : rs.Pairwise fun r r' => r.2 < r'.2) (hpos : ∀ r ∈ rs, r.2 ≠ 0)
    (hiff : ∀ i, i ≠ 0 → ∀ ps, S i ps ↔ ∃ r ∈ rs, answer url r = some (i, ps))
    (hzero : x.1 = 0 → x = (0, [])) : x = (rs.findSome? (answer url)).getD (0, []) := by
  cases hfound : rs.findSome? (answer url) with
  | none =>
      have hnone := List.findSome?_eq_none_iff.mp hfound
      by_cases hx : x.1 = 0
      · exact hzero hx
      · obtain ⟨r, hr, hans⟩ := (hiff x.1 hx x.2).mp (h.found.resolve_left hx)
        rw [hnone r hr] at hans
        cases hans
  | some y =>
      obtain ⟨before, r, after, rfl, hans, hbefore⟩ := List.findSome?_eq_some_iff.mp hfound
      have hr : r ∈ before ++ r :: after := List.mem_append_right _ List.mem_cons_self
      have hy : y.1 ≠ 0 := by
        rw [answer_fst hans]
        exact hpos r hr
      obtain ⟨hx, hle⟩ := h.least y.1 y.2 ((hiff y.1 hy y.2).mpr ⟨r, hr, hans⟩) hy
      obtain ⟨r', hr', hans'⟩ := (hiff x.1 hx x.2).mp (h.found.resolve_left hx)
      -- the rule of the best answer is not in front of the first that matches, nor behind it
      obtain hin | hin := List.mem_append.mp hr'
      · rw [hbefore r' hin] at hans'
        cases hans'
      · obtain rfl | hin := List.mem_cons.mp hin
        · rw [hans] at hans'
          exact (Option.some.inj hans').symm
        · have hlt := List.rel_of_pairwise_cons (List.pairwise_append.mp hsorted).2.1 hin
          have hx' := answer_fst hans'
          have hy' := answer_fst hans
          dsimp only at hx'
          omega

/-- One entry for each rule: no trailing slash, and an index that `uint16_t` holds. -/
def OneEntry {ε : Type} (r : Rule ε × Nat) : Prop :=
  r.1.hasTrailingSlash = false ∧ r.2 < 2 ^ 16

/-- Without trailing slashes, and with indices that fit, the rules go in one by one. -/
theorem foldl_addRule {ε : Type} {rs : List (Rule ε × Nat)} (h : ∀ r ∈ rs, OneEntry r) (t : Node) :
    rs.foldl addRule t = rs.foldl (fun t r => t.add r.1.rule r.2) t := by
  induction rs generalizing t with
  | nil => rfl
  | cons r rs ih =>
      obtain ⟨hslash, hindex⟩ := h r List.mem_cons_self
      have hadd : addRule t r = t.add r.1.rule r.2 := by
        unfold addRule
        dsimp only
        rw [hslash, Nat.mod_eq_of_lt hindex]
        rfl
      rw [List.foldl_cons, List.foldl_cons, hadd]
      exact ih (fun r' hr' => h r' (List.mem_cons_of_mem _ hr')) _

/-- The trie of rules with increasing indices finds the first one that matches. -/
theorem find_built {ε : Type} {rs : List (Rule ε × Nat)} (hone : ∀ r ∈ rs, OneEntry r)
    (hdistinct : (rs.map fun r => ruleParts r.1.rule).Nodup)
    (hsorted : rs.Pairwise fun r r' => r.2 < r'.2) (hpos : ∀ r ∈ rs, r.2 ≠ 0) (url : List Char) :
    (rs.foldl addRule Node.empty).optimize.find [] url
      = (rs.findSome? (answer url)).getD (0, []) := by
  rw [foldl_addRule hone]
  obtain ⟨hgrown, hpaths⟩ := paths_built rs grown_empty hdistinct fun r _ j hin => by
    rw [Node.empty, Node.paths, pathsIn, List.mem_singleton] at hin
    exact (Prod.mk.inj hin).1
  refine (Node.find_best _ [] url).first hsorted hpos (fun i hi ps => ?_) (find_zero _ url)
  simp only [List.nil_append, exists_eq_left', answers_optimize hi hgrown]
  constructor
  · rintro ⟨parts, hmem, hmatch⟩
    obtain hin | ⟨r, hr, rfl, rfl⟩ := (hpaths i hi parts).mp hmem
    · rw [Node.empty, Node.paths, pathsIn, List.mem_singleton] at hin
      exact absurd (Prod.mk.inj hin).1 hi
    · refine ⟨r, hr, ?_⟩
      rw [answer, hmatch]
      rfl
  · rintro ⟨r, hr, hans⟩
    obtain ⟨qs, hmatch, heq⟩ := Option.map_eq_some_iff.mp hans
    obtain ⟨rfl, rfl⟩ := Prod.mk.inj heq
    exact ⟨_, (hpaths _ hi _).mpr (.inr ⟨r, hr, rfl, rfl⟩), hmatch⟩

/-- **The router finds the first rule that matches**, in the order in which the rules were
    added, with the parameters that the rule takes from the URL: for all rules of different
    shape whose parameters are strings and paths, none of them with a trailing slash, and as
    many as a `uint16_t` counts behind the two reserved indices. -/
theorem router_finds_first_match {ε : Type} (all : List (Rule ε)) (m : HttpMethod)
    (hdistinct : ((all.filter fun r => r.methods.contains m).map (ruleParts ·.rule)).Nodup)
    (hslash : ∀ r ∈ all.filter fun r => r.methods.contains m, r.hasTrailingSlash = false)
    (hroom : (all.filter fun r => r.methods.contains m).length + 2 ≤ 2 ^ 16) (url : String) :
    Router.find (perMethod all) m url
      = (((all.filter fun r => r.methods.contains m).zipIdx 2).findSome? (answer url.toList)).getD
          (0, []) := by
  have hone : ∀ r ∈ (all.filter fun r => r.methods.contains m).zipIdx 2, OneEntry r := by
    intro r hr
    have hlt := List.snd_lt_add_of_mem_zipIdx hr
    exact ⟨hslash r.1 (List.fst_mem_of_mem_zipIdx hr), by omega⟩
  have hdistinct' : (((all.filter fun r => r.methods.contains m).zipIdx 2).map
      fun r => ruleParts r.1.rule).Nodup := by
    rw [← List.zipIdx_map_fst 2 (all.filter fun r => r.methods.contains m), List.map_map]
      at hdistinct
    exact hdistinct
  have hsorted : ((all.filter fun r => r.methods.contains m).zipIdx 2).Pairwise
      fun r r' => r.2 < r'.2 := by
    rw [← List.pairwise_map, List.zipIdx_map_snd]
    exact List.pairwise_lt_range'
  have hpos : ∀ r ∈ (all.filter fun r => r.methods.contains m).zipIdx 2, r.2 ≠ 0 := by
    intro r hr
    have hle := List.le_snd_of_mem_zipIdx hr
    omega
  exact find_built hone hdistinct' hsorted hpos url.toList

/-- Rules that share letters and overlap. -/
def sampleRules : List (Rule Unit) :=
  [{ rule := "/orders/get/<string>", methods := [.get], endpoint := () },
    { rule := "/orders/list", methods := [.get], endpoint := () },
    { rule := "/orders/pay", methods := [.post], endpoint := () },
    { rule := "/orders/<path>", methods := [.get], endpoint := () }]

/-- The string of the first rule would end at the slash; the path of the last one takes it. -/
theorem router_finds_first_match_order :
    Router.find (perMethod sampleRules) .get "/orders/get/ORD1/x"
      = (((sampleRules.filter fun r => r.methods.contains .get).zipIdx 2).findSome?
          (answer "/orders/get/ORD1/x".toList)).getD (0, []) :=
  router_finds_first_match sampleRules .get (by decide) (by decide) (by decide) _

end OrderApi.Crow
