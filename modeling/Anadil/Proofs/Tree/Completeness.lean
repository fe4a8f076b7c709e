import Anadil.Proofs.Tree.ExprCompleteness

/-! # Completeness of the reading: statements and programs

What `Stmt.words` writes is read back. The readers of statements call each other through blocks, so the
induction is on the tree, and what is shown of a statement is shown in every context in which it is
legal. -/

namespace Anadil

namespace Parser

variable {c d : Cursor} {ws : List Word} {n fuel : Nat}

variable {known : Lexicon} {ctx : Context} {m : Manner}

attribute [local simp] paramWords Stmt.words stmtWords elseWords functionWords methodWords

/-! ### Semicolons -/

theorem traceStatement_ok (hc : c.Faces ws d) : ∃ c', traceStatement c = .ok () c' ∧ c'.Faces ws d := by
  obtain ⟨ts, hts, hp⟩ := hc
  exact ⟨_, rfl, ts, hts, hp.rest, hp.finish⟩

/-- Semicolons are skipped up to something else. -/
theorem skipSemicolons_ok (hc : c.Faces (List.replicate n (sign .semicolon) ++ ws) d)
    (hnot : ∀ c' : Cursor, c'.Faces ws d → c'.token.kind ≠ .semicolon) :
    ∃ c', skipSemicolons c = .ok () c' ∧ c'.Faces ws d := by
  obtain ⟨ts, hts, hp⟩ := hc
  obtain ⟨us, vs, rfl, hus, hvs⟩ := List.map_eq_append_iff.mp hts
  have hsemis : ∀ t ∈ us, (t.kind == .semicolon) = true := by
    intro t ht
    have hw : t.word ∈ List.replicate n (sign .semicolon) := hus ▸ List.mem_map_of_mem ht
    have hk : t.kind = .semicolon := congrArg Prod.fst (List.eq_of_mem_replicate hw)
    rw [hk]
    rfl
  have hfaces : ∀ c' : Cursor, c'.rest = vs ++ d.rest → c'.finish = c.finish → c'.Faces ws d :=
    fun c' hrest hfinish => ⟨vs, hvs, hrest, hp.finish.trans hfinish.symm⟩
  have hdrop : c.rest.dropWhile (·.kind == .semicolon) = vs ++ d.rest := by
    rw [hp.rest, List.append_assoc, List.dropWhile_append_of_pos hsemis]
    have htoken := hnot _ (hfaces { c with rest := vs ++ d.rest } rfl rfl)
    cases hrest : vs ++ d.rest with
    | nil => rfl
    | cons t rest =>
      rw [hrest] at htoken
      refine List.dropWhile_cons_of_neg ?_
      simpa [Cursor.token] using htoken
  exact ⟨_, rfl, hfaces _ hdrop rfl⟩

/-! ### What statements begin with -/

/-- The kinds of words that a statement can begin with. -/
def stmtStarts : List Kind :=
  exprStarts ++
    [.functionWord, .classWord, .ifWord, .whileWord, .returnWord, .printWord, .breakWord, .continueWord]

theorem stmt_begins {s : Stmt} (h : s.Legal known ctx) : Begins stmtStarts (s.words m) := by
  have hexpr : ∀ {e : Expr}, e.Legal known ctx → Begins stmtStarts e.words := by
    intro e he
    obtain ⟨w, more, hwords, hw⟩ := (alone he).starts
    exact ⟨w, more, hwords, List.mem_append_left _ hw⟩
  have hword : ∀ {k : Kind} {rest : List Word}, k ∈ stmtStarts → Begins stmtStarts (sign k :: rest) :=
    fun hk => ⟨_, _, rfl, hk⟩
  cases s with
  | function f =>
    cases f
    exact hword (by decide)
  | classDef | loop | print | breakLoop | continueLoop => exact hword (by decide)
  | branch span c body otherwise => cases otherwise <;> exact hword (by decide)
  | ret span value => cases value <;> exact hword (by decide)
  | expression span e => exact hexpr h
  | assign span target e => exact (hexpr h.2.1).append _
  | absent => exact absurd h id

/-! ### Statements that are read back -/

/-- The words of a statement are read back in front of a semicolon. -/
def ReadsStmt (m : Manner) (ctx : Context) (s : Stmt) : Prop :=
  ∀ c d fuel, c.Faces (s.words m) d → d.token.kind = .semicolon → 16 * (s.words m).length < fuel →
    ∃ s' c', s'.bare = s.bare ∧ c'.Faces [] d ∧ statement ctx fuel c = .ok s' c'

/-- The words of an `eğer` are read back by its own reader. -/
def ReadsBranch (m : Manner) (ctx : Context) (s : Stmt) : Prop :=
  ∀ c d fuel, c.Faces (s.words m) d → d.token.kind = .semicolon → 16 * (s.words m).length ≤ fuel →
    ∃ s' c', s'.bare = s.bare ∧ c'.Faces [] d ∧ branch ctx fuel c = .ok s' c'

/-- Semicolons at the end of a block are skipped up to what ends it. -/
theorem skipSemicolons_stop {stop : Kind} (hc : c.Faces (List.replicate n (sign .semicolon) ++ []) d)
    (hd : d.token.kind = stop) (hstop : stop ≠ .semicolon) :
    ∃ c', skipSemicolons c = .ok () c' ∧ c'.Faces [] d ∧ c'.token.kind = stop := by
  have hkind : ∀ c' : Cursor, c'.Faces [] d → c'.token.kind = stop := fun c' hc' => by rw [hc'.token, hd]
  obtain ⟨c₁, hskip, hc₁⟩ := skipSemicolons_ok hc fun c' hc' => hkind c' hc' ▸ hstop
  exact ⟨c₁, hskip, hc₁, hkind c₁ hc₁⟩

/-- The words of statements are read back up to what ends the block. -/
theorem statements_ok {ss : List Stmt} (hlegal : ∀ s ∈ ss, s.Legal known ctx)
    (h : ∀ s ∈ ss, ReadsStmt m ctx s) {stop : Kind}
    (hc : c.Faces (List.replicate n (sign .semicolon) ++ stmtWords m ss) d)
    (hd : d.token.kind = stop) (hstop : stop ≠ .semicolon ∧ stop ∉ stmtStarts)
    (hfuel : 16 * (stmtWords m ss).length < fuel) :
    ∃ ss' c', stmtsRetold .bare ss' = stmtsRetold .bare ss ∧ c'.Faces [] d ∧ statements ctx stop fuel c = .ok ss' c' := by
  induction ss generalizing c fuel n with
  | nil =>
    obtain ⟨fuel, rfl⟩ : ∃ f, fuel = f + 1 := ⟨fuel - 1, by omega⟩
    obtain ⟨c₁, hskip, hc₁, hk⟩ := skipSemicolons_stop hc hd hstop.1
    refine ⟨[], c₁, rfl, hc₁, ?_⟩
    simp only [statements, bind_ok hskip, peek_bind, if_pos hk, pure_ok]
  | cons s ss ih =>
    obtain ⟨hsl, hlegal⟩ := List.forall_mem_cons.mp hlegal
    obtain ⟨hs, h⟩ := List.forall_mem_cons.mp h
    obtain ⟨fuel, rfl⟩ : ∃ f, fuel = f + 1 := ⟨fuel - 1, by omega⟩
    have hnot : ∀ c' : Cursor, c'.Faces (stmtWords m (s :: ss)) d → c'.token.kind ≠ .semicolon := by
      intro c' hc' hk
      have hstart := ((stmt_begins hsl).append _).token hc'
      rw [hk] at hstart
      exact absurd hstart (by decide)
    obtain ⟨c₁, hskip, hc₁⟩ := skipSemicolons_ok hc hnot
    have hstart := ((stmt_begins hsl).append _).token hc₁
    have hne : c₁.token.kind ≠ stop := fun hk => hstop.2 (hk ▸ hstart)
    have hmore : c₁.token.kind ≠ .endOfInput := by
      intro hk
      rw [hk] at hstart
      exact absurd hstart (by decide)
    simp only [stmtWords, List.length_append, List.length_cons] at hc₁ hfuel
    obtain ⟨mid, hmid, hrest⟩ := hc₁.split
    obtain ⟨s', c₂, hs', hc₂, heq⟩ := hs c₁ mid fuel hmid hrest.sign.1 (by omega)
    have hc₂ : c₂.Faces (List.replicate 1 (sign .semicolon) ++ stmtWords m ss) d := hc₂.next hrest
    have hless : 16 * (stmtWords m ss).length < fuel := by omega
    obtain ⟨ss', c₃, hss', hc₃, heq'⟩ := ih hlegal h hc₂ hless
    refine ⟨s' :: ss', c₃, by simp only [stmtsRetold, hs', hss'], hc₃, ?_⟩
    simp only [statements, bind_ok hskip, peek_bind, if_neg hne, if_neg hmore, bind_ok heq,
      bind_ok heq', pure_ok]

/-- The words of a block are read back. -/
theorem block_ok {body : List Stmt} (hlegal : ∀ s ∈ body, s.Legal known ctx)
    (h : ∀ s ∈ body, ReadsStmt m ctx s) (hc : c.Faces (braces (stmtWords m body)) d)
    (hfuel : 16 * (braces (stmtWords m body)).length ≤ fuel) :
    ∃ ss c', stmtsRetold .bare ss = stmtsRetold .bare body ∧ c'.Faces [] d ∧ block ctx fuel c = .ok ss c' := by
  simp only [braces, List.length_cons, List.length_append, List.length_nil] at hc hfuel
  obtain ⟨fuel, rfl⟩ : ∃ f, fuel = f + 1 := ⟨fuel - 1, by omega⟩
  obtain ⟨hl, hc₁⟩ := hc.sign
  obtain ⟨mid, hmid, hrest⟩ := hc₁.split
  have hmid : c.advance.Faces (List.replicate 0 (sign .semicolon) ++ stmtWords m body) mid := hmid
  have hless : 16 * (stmtWords m body).length < fuel := by omega
  obtain ⟨ss, c₂, hss, hc₂, heq⟩ :=
    statements_ok hlegal h hmid hrest.sign.1 ⟨by decide, by decide⟩ hless
  obtain ⟨hr, hc₃⟩ := (hc₂.next hrest).sign
  refine ⟨ss, c₂.advance, hss, hc₃, ?_⟩
  simp only [block, bind_ok (expect_ok hl), bind_ok heq, bind_ok (expect_ok hr), pure_ok]

/-! ### Statements without statements in them -/

section Simple
variable {span : Span} {e : Expr}

/-- A statement is read back if it is once its start is traced. -/
theorem readsStmt_of_traced {s : Stmt}
    (h : ∀ c₀ c d fuel, traceStatement c₀ = .ok () c → c.Faces (s.words m) d → d.token.kind = .semicolon →
      16 * (s.words m).length ≤ fuel →
        ∃ s' c', s'.bare = s.bare ∧ c'.Faces [] d ∧ statement ctx (fuel + 1) c₀ = .ok s' c') :
    ReadsStmt m ctx s := by
  intro c d fuel hc hd hfuel
  obtain ⟨fuel, rfl⟩ : ∃ f, fuel = f + 1 := ⟨fuel - 1, by omega⟩
  obtain ⟨c₁, htrace, hc₁⟩ := traceStatement_ok hc
  exact h c c₁ d fuel htrace hc₁ hd (Nat.le_of_lt_succ hfuel)

theorem statement_simple {c₁ : Cursor} (htrace : traceStatement c = .ok () c₁)
    (hk : c₁.token.kind ∈ exprStarts) : statement ctx (fuel + 1) c = simple ctx fuel c₁ := by
  simp only [statement, bind_ok htrace, peek_bind]
  generalize c₁.token.kind = k at hk ⊢
  simp only [exprStarts, List.mem_cons, List.not_mem_nil, or_false] at hk
  rcases hk with rfl | rfl | rfl | rfl | rfl | rfl | rfl | rfl | rfl | rfl | rfl <;> rfl

theorem ReadsBack.statement (h : ReadsBack ctx .or e ws)
    (hc : c.Faces ws d) (hstart : c.token.kind ∈ exprStarts) {k : Kind} (hd : d.token.kind = k)
    (hfuel : 16 * ws.length < fuel) (hk : k ∈ Level.closing ∧ k ≠ .assign := by decide) :
    ∃ s e' c', e'.bare = e.bare ∧ c'.Faces [] d ∧ statement ctx fuel c = .ok (.expression s e') c' := by
  obtain ⟨fuel, rfl⟩ : ∃ f, fuel = f + 1 := ⟨fuel - 1, by omega⟩
  obtain ⟨c₁, htrace, hc₁⟩ := traceStatement_ok hc
  have htoken : c₁.token = c.token := (traceStatement_eq_ok htrace).2
  obtain ⟨e', c₂, he, hc₂, heq⟩ := h.whole hc₁ hd (Nat.le_of_lt_succ hfuel) hk.1
  have hk : c₂.token.kind ≠ .assign := by
    rw [hc₂.token, hd]
    exact hk.2
  obtain ⟨s, hs⟩ := spanFrom_ok c₁.token c₂
  refine ⟨s, e', c₂, he, hc₂, ?_⟩
  rw [statement_simple htrace (by rwa [htoken])]
  simp only [simple, peek_bind, bind_ok heq, if_neg hk, bind_ok hs, pure_ok]

theorem readsStmt_expression (h : e.Legal known ctx) : ReadsStmt m ctx (.expression span e) := by
  intro c d fuel hc hd hfuel
  simp only [Stmt.words] at hc hfuel
  obtain ⟨s, e', c', he, hc', heq⟩ := (readsBack h).statement hc ((alone h).starts.token hc) hd hfuel
  exact ⟨.expression s e', c', by simp only [Stmt.retold, he], hc', heq⟩

theorem readsStmt_assign {target : Expr} (hplace : target.isPlace = true)
    (ht : target.Legal known ctx) (h : e.Legal known ctx) :
    ReadsStmt m ctx (.assign span target e) := by
  refine readsStmt_of_traced fun c₀ c₁ d fuel htrace hc₁ hd hfuel => ?_
  simp only [Stmt.words, List.length_append, List.length_cons] at hc₁ hfuel
  have hstart : c₁.token.kind ∈ exprStarts := ((alone ht).starts.append _).token hc₁
  obtain ⟨mid, hmid, hrest⟩ := hc₁.split
  have htarget : 16 * target.words.length ≤ fuel := by omega
  obtain ⟨t', c₂, ht', hc₂, heq⟩ := (readsBack ht).whole hmid hrest.sign.1 htarget
  obtain ⟨hk, hc₃⟩ := (hc₂.next hrest).sign
  have hvalue : 16 * e.words.length ≤ fuel := by omega
  obtain ⟨e', c₄, he, hc₄, heq'⟩ := (readsBack h).whole hc₃ hd hvalue
  have hplace' : t'.isPlace = true := (Expr.isPlace_congr ht').trans hplace
  obtain ⟨s, hs⟩ := spanFrom_ok c₁.token c₄
  refine ⟨.assign s t' e', c₄, by simp only [Stmt.retold, ht', he], hc₄, ?_⟩
  rw [statement_simple htrace hstart]
  simp only [simple, peek_bind, bind_ok heq, if_pos hk, if_pos hplace', advance_bind,
    bind_ok heq', bind_ok hs, pure_ok]

theorem readsStmt_bareReturn (hfun : ctx.inFunction = true) : ReadsStmt m ctx (.ret span none) := by
  refine readsStmt_of_traced fun c₀ c₁ d fuel htrace hc₁ hd hfuel => ?_
  simp only [Stmt.words] at hc₁
  obtain ⟨hk, hc₂⟩ := hc₁.sign
  have hend : c₁.advance.token.kind ∈ returnEnders := by
    rw [hc₂.token, hd]
    decide
  obtain ⟨s, hs⟩ := spanFrom_ok c₁.token c₁.advance
  refine ⟨.ret s none, c₁.advance, rfl, hc₂, ?_⟩
  simp only [statement, bind_ok htrace, peek_bind, hk, returnStmt, if_pos hfun,
    advance_bind, if_pos hend, bind_ok hs, pure_ok]

theorem readsStmt_return (hfun : ctx.inFunction = true) (h : e.Legal known ctx) :
    ReadsStmt m ctx (.ret span (some e)) := by
  refine readsStmt_of_traced fun c₀ c₁ d fuel htrace hc₁ hd hfuel => ?_
  simp only [Stmt.words, List.length_cons] at hc₁ hfuel
  obtain ⟨hk, hc₂⟩ := hc₁.sign
  have hmore : c₁.advance.token.kind ∉ returnEnders := by
    have hall : ∀ k ∈ exprStarts, k ∉ returnEnders := by decide
    exact hall _ ((alone h).starts.token hc₂)
  have hless : 16 * e.words.length ≤ fuel := by omega
  obtain ⟨e', c₃, he, hc₃, heq⟩ := (readsBack h).whole hc₂ hd hless
  obtain ⟨s, hs⟩ := spanFrom_ok c₁.token c₃
  refine ⟨.ret s (some e'), c₃, by simp only [Stmt.retold, Option.map_some, he], hc₃, ?_⟩
  simp only [statement, bind_ok htrace, peek_bind, hk, returnStmt, if_pos hfun,
    advance_bind, if_neg hmore, bind_ok heq, bind_ok hs, pure_ok]

theorem readsStmt_print (h : e.Legal known ctx) : ReadsStmt m ctx (.print span e) := by
  refine readsStmt_of_traced fun c₀ c₁ d fuel htrace hc₁ hd hfuel => ?_
  simp only [Stmt.words, parens, List.length_cons, List.length_append, List.length_nil] at hc₁ hfuel
  obtain ⟨hk, hc₂⟩ := hc₁.sign
  obtain ⟨hl, hc₃⟩ := hc₂.sign
  obtain ⟨mid, hmid, hrest⟩ := hc₃.split
  have hless : 16 * e.words.length ≤ fuel := by omega
  obtain ⟨e', c₄, he, hc₄, heq⟩ := (readsBack h).whole hmid hrest.sign.1 hless
  obtain ⟨hr, hc₅⟩ := (hc₄.next hrest).sign
  obtain ⟨s, hs⟩ := spanFrom_ok c₁.token c₄.advance
  refine ⟨.print s e', c₄.advance, by simp only [Stmt.retold, he], hc₅, ?_⟩
  simp only [statement, bind_ok htrace, peek_bind, hk, printStmt, bind_ok (expect_ok hk),
    bind_ok (expect_ok hl), bind_ok heq, bind_ok (expect_ok hr), bind_ok hs, pure_ok]

theorem readsStmt_breakLoop (hloop : ctx.inLoop = true) : ReadsStmt m ctx (.breakLoop span) := by
  refine readsStmt_of_traced fun c₀ c₁ d fuel htrace hc₁ hd hfuel => ?_
  simp only [Stmt.words] at hc₁
  obtain ⟨hk, hc₂⟩ := hc₁.sign
  refine ⟨.breakLoop c₁.token.span, c₁.advance, rfl, hc₂, ?_⟩
  simp only [statement, bind_ok htrace, peek_bind, hk, loopControl, if_pos hloop,
    advance_bind, if_true, pure_ok]

theorem readsStmt_continueLoop (hloop : ctx.inLoop = true) : ReadsStmt m ctx (.continueLoop span) := by
  refine readsStmt_of_traced fun c₀ c₁ d fuel htrace hc₁ hd hfuel => ?_
  simp only [Stmt.words] at hc₁
  obtain ⟨hk, hc₂⟩ := hc₁.sign
  refine ⟨.continueLoop c₁.token.span, c₁.advance, rfl, hc₂, ?_⟩
  simp only [statement, bind_ok htrace, peek_bind, hk, loopControl, if_pos hloop,
    advance_bind, reduceCtorEq, if_false, pure_ok]

end Simple

/-! ### Functions and classes -/

theorem paramWords_cons (name : Text) (names : List Text) :
    paramWords (name :: names) =
      (.identifier, name) :: if names = [] then [] else sign .comma :: paramWords names := by
  cases names <;> simp

/-- The words of parameters are read back if no name comes twice. -/
theorem parameters_ok {names : List Text} (hne : names ≠ []) (hmay : ∀ n ∈ names, ctx.MayName n)
    (hnodup : names.Nodup) {seen : List Text} (hfresh : ∀ n ∈ names, n ∉ seen)
    (hc : c.Faces (paramWords names) d) (hd : d.token.kind = .rightParen)
    (hfuel : (paramWords names).length ≤ fuel) :
    ∃ c', c'.Faces [] d ∧ parameters ctx fuel seen c = .ok names c' := by
  induction names generalizing c fuel seen with
  | nil => exact absurd rfl hne
  | cons name names ih =>
    obtain ⟨hname, hmay⟩ := List.forall_mem_cons.mp hmay
    obtain ⟨hnew, hfresh⟩ := List.forall_mem_cons.mp hfresh
    obtain ⟨hnot, hnodup⟩ := List.nodup_cons.mp hnodup
    rw [paramWords_cons] at hc hfuel
    rw [List.length_cons] at hfuel
    obtain ⟨fuel, rfl⟩ : ∃ f, fuel = f + 1 := ⟨fuel - 1, by omega⟩
    obtain ⟨hk, htext, hc₁⟩ := hc.uncons
    have hplain := plainName_ok hk (by rw [htext]; exact hname)
    have hseen : ¬ seen.contains name = true := by
      rw [List.contains_iff_mem]
      exact hnew
    by_cases hnames : names = []
    · rw [if_pos hnames] at hc₁
      have hsep : c.advance.token.kind ≠ .comma := by
        rw [hc₁.token, hd]
        decide
      refine ⟨c.advance, hc₁, ?_⟩
      simp only [parameters, bind_ok hplain, htext, if_neg hseen, peek_bind, if_neg hsep, pure_ok, hnames]
    · rw [if_neg hnames] at hc₁ hfuel
      rw [List.length_cons] at hfuel
      obtain ⟨hsep, hc₂⟩ := hc₁.sign
      have hfresh' : ∀ n ∈ names, n ∉ name :: seen := by
        intro n hn hmem
        rcases List.mem_cons.mp hmem with rfl | hmem
        · exact hnot hn
        · exact hfresh n hn hmem
      have hless : (paramWords names).length ≤ fuel := by omega
      obtain ⟨c₃, hc₃, heq⟩ := ih hnames hmay hnodup hfresh' hc₂ hless
      refine ⟨c₃, hc₃, ?_⟩
      simp only [parameters, bind_ok hplain, htext, if_neg hseen, peek_bind, if_pos hsep,
        advance_bind, bind_ok heq, pure_ok]

/-- What the reader of a function does behind the `(`: with or without parameters, it comes to stand in
front of the `)`. -/
theorem parameterList_ok {isMethod : Bool} {names : List Text} (hmay : ∀ n ∈ names, ctx.MayName n)
    (hnodup : names.Nodup) (hself : isMethod = true → ("self" : Text) ∉ names)
    (hc : c.Faces (paramWords names) d) (hd : d.token.kind = .rightParen)
    (hfuel : (paramWords names).length ≤ fuel) : ∃ c' : Cursor, c'.Faces [] d ∧
      (c.token.kind = .rightParen ∧ names = [] ∧ c = c' ∨ c.token.kind ≠ .rightParen ∧
        parameters ctx fuel (if isMethod then ["self"] else []) c = .ok names c') := by
  cases names with
  | nil => exact ⟨c, hc, .inl ⟨by rw [Cursor.Faces.token hc, hd], rfl, rfl⟩⟩
  | cons name names =>
    have hsome : c.token.kind ≠ .rightParen := by
      have hc' := hc
      rw [paramWords_cons] at hc'
      rw [hc'.uncons.1]
      decide
    have hfresh : ∀ n ∈ name :: names, n ∉ (if isMethod then ["self"] else [] : List Text) := by
      intro n hn hmem
      cases isMethod with
      | false => cases hmem
      | true =>
        obtain rfl := List.mem_singleton.mp hmem
        exact hself rfl hn
    obtain ⟨c', hc', heq⟩ :=
      parameters_ok (List.cons_ne_nil name names) hmay hnodup hfresh hc hd hfuel
    exact ⟨c', hc', .inr ⟨hsome, heq⟩⟩

/-- The words of a function are read back. -/
theorem function_ok {isMethod : Bool} {f : Function Stmt} (hlegal : functionLegal known ctx isMethod f)
    (h : ∀ s ∈ f.body, ReadsStmt m (ctx.function isMethod) s)
    (hc : c.Faces (functionWords m f) d) (hfuel : 16 * (functionWords m f).length ≤ fuel) :
    ∃ f' c', functionRetold .bare f' = functionRetold .bare f ∧ c'.Faces [] d ∧
      function ctx isMethod fuel c = .ok f' c' := by
  obtain ⟨⟨hname, -⟩, hparams, hnodup, hself, hbody⟩ := functionLegal_iff.mp hlegal
  rw [stmtsLegal_iff] at hbody
  obtain ⟨span, name, params, body⟩ := f
  simp only [functionWords, List.length_cons, List.length_append] at hc hfuel
  obtain ⟨fuel, rfl⟩ : ∃ f, fuel = f + 1 := ⟨fuel - 1, by omega⟩
  obtain ⟨hk, hc₁⟩ := hc.sign
  obtain ⟨hid, htext, hc₂⟩ := hc₁.uncons
  have hplain := plainName_ok hid (by rw [htext]; exact hname)
  obtain ⟨mid, hmid, hblock⟩ := hc₂.split
  simp only [parens, List.length_cons, List.length_append, List.length_nil] at hmid hfuel
  obtain ⟨hl, hc₃⟩ := hmid.sign
  obtain ⟨close, hclose, hrest⟩ := hc₃.split
  have hfew : (paramWords params).length ≤ fuel := by omega
  obtain ⟨c₄, hc₄, hread⟩ :=
    parameterList_ok (fun n hn => (hparams n hn).1) hnodup hself hclose hrest.sign.1 hfew
  obtain ⟨hr, hc₅⟩ := (hc₄.next hrest).sign
  have hless : 16 * (braces (stmtWords m body)).length ≤ fuel := by omega
  obtain ⟨ss, c₆, hss, hc₆, heq⟩ := block_ok hbody h (hc₅.next hblock) hless
  obtain ⟨s, hs⟩ := spanFrom_ok c.token c₆
  refine ⟨⟨s, name, params, ss⟩, c₆, by simp only [functionRetold, hss], hc₆, ?_⟩
  simp only [function, bind_ok (expect_ok hk), bind_ok hplain, bind_ok (expect_ok hl), peek_bind]
  rcases hread with ⟨hempty, rfl, rfl⟩ | ⟨hsome, hread⟩
  · simp only [if_pos hempty, bind_ok (pure_ok _), bind_ok (closeList_ok hr), bind_ok heq, bind_ok hs, htext,
      pure_ok]
  · simp only [if_neg hsome, bind_ok hread, bind_ok (closeList_ok hr), bind_ok heq, bind_ok hs, htext,
      pure_ok]

theorem methodWords_cons (f : Function Stmt) (fs : List (Function Stmt)) :
    methodWords m (f :: fs) = functionWords m f ++
      (List.replicate (if m.closed f then 1 else 0) (sign .semicolon) ++ methodWords m fs) := by
  cases hclosed : m.closed f <;> simp [hclosed]

theorem methods_ok {fs : List (Function Stmt)} (hlegal : ∀ f ∈ fs, functionLegal known ctx true f)
    (h : ∀ f ∈ fs, ∀ s ∈ f.body, ReadsStmt m (ctx.function true) s)
    (hc : c.Faces (List.replicate n (sign .semicolon) ++ methodWords m fs) d)
    (hd : d.token.kind = .rightBrace) (hfuel : 16 * (methodWords m fs).length < fuel) :
    ∃ fs' c', methodsRetold .bare fs' = methodsRetold .bare fs ∧ c'.Faces [] d ∧ methods ctx fuel c = .ok fs' c' := by
  induction fs generalizing c fuel n with
  | nil =>
    obtain ⟨fuel, rfl⟩ : ∃ f, fuel = f + 1 := ⟨fuel - 1, by omega⟩
    obtain ⟨c₁, hskip, hc₁, hk⟩ := skipSemicolons_stop hc hd (by decide)
    refine ⟨[], c₁, rfl, hc₁, ?_⟩
    simp only [methods, bind_ok hskip, peek_bind, if_pos hk, pure_ok]
  | cons f fs ih =>
    obtain ⟨hfl, hlegal⟩ := List.forall_mem_cons.mp hlegal
    obtain ⟨hf, h⟩ := List.forall_mem_cons.mp h
    obtain ⟨fuel, rfl⟩ : ∃ f, fuel = f + 1 := ⟨fuel - 1, by omega⟩
    have hfirst : ∀ c' : Cursor, c'.Faces (methodWords m (f :: fs)) d → c'.token.kind = .functionWord := by
      intro c' hc'
      cases f
      exact hc'.sign.1
    obtain ⟨c₁, hskip, hc₁⟩ := skipSemicolons_ok hc (fun c' hc' => by rw [hfirst c' hc']; decide)
    have hk := hfirst c₁ hc₁
    have hne : c₁.token.kind ≠ .rightBrace := by
      rw [hk]
      decide
    rw [methodWords_cons] at hc₁ hfuel
    simp only [List.length_append] at hfuel
    obtain ⟨mid, hmid, hrest⟩ := hc₁.split
    have hone : 16 * (functionWords m f).length ≤ fuel := by omega
    obtain ⟨f', c₂, hf', hc₂, heq⟩ := function_ok hfl hf hmid hone
    have hpos : 0 < (functionWords m f).length := by
      cases f
      simp
    have hless : 16 * (methodWords m fs).length < fuel := by omega
    obtain ⟨fs', c₃, hfs', hc₃, heq'⟩ := ih hlegal h (hc₂.next hrest) hless
    refine ⟨f' :: fs', c₃, by simp only [methodsRetold, hf', hfs'], hc₃, ?_⟩
    simp only [methods, bind_ok hskip, peek_bind, if_neg hne, if_pos hk, bind_ok heq, bind_ok heq', pure_ok]

section Compound
variable {span : Span} {e : Expr} {body : List Stmt}

theorem readsStmt_function {f : Function Stmt} (hlegal : functionLegal known ctx false f)
    (h : ∀ s ∈ f.body, ReadsStmt m (ctx.function false) s) : ReadsStmt m ctx (.function f) := by
  refine readsStmt_of_traced fun c₀ c₁ d fuel htrace hc₁ hd hfuel => ?_
  simp only [Stmt.words] at hc₁ hfuel
  have hk : c₁.token.kind = .functionWord := by
    cases f
    exact hc₁.sign.1
  have hless : 16 * (functionWords m f).length ≤ fuel := by omega
  obtain ⟨f', c₂, hf', hc₂, heq⟩ := function_ok hlegal h hc₁ hless
  refine ⟨.function f', c₂, by simp only [Stmt.retold, hf'], hc₂, ?_⟩
  simp only [statement, bind_ok htrace, peek_bind, hk, bind_ok heq, pure_ok]

theorem readsStmt_classDef {name : Text} {fs : List (Function Stmt)} (hname : ctx.MayName name)
    (hlegal : ∀ f ∈ fs, functionLegal known ctx true f)
    (h : ∀ f ∈ fs, ∀ s ∈ f.body, ReadsStmt m (ctx.function true) s) :
    ReadsStmt m ctx (.classDef span name fs) := by
  refine readsStmt_of_traced fun c₀ c₁ d fuel htrace hc₁ hd hfuel => ?_
  simp only [Stmt.words, braces, List.length_cons, List.length_append, List.length_nil] at hc₁ hfuel
  obtain ⟨hk, hc₂⟩ := hc₁.sign
  obtain ⟨hid, htext, hc₃⟩ := hc₂.uncons
  have hplain := plainName_ok hid (by rw [htext]; exact hname)
  obtain ⟨hl, hc₄⟩ := hc₃.sign
  obtain ⟨mid, hmid, hrest⟩ := hc₄.split
  have hmid : c₁.advance.advance.advance.Faces
      (List.replicate 0 (sign .semicolon) ++ methodWords m fs) mid := hmid
  have hless : 16 * (methodWords m fs).length < fuel := by omega
  obtain ⟨fs', c₅, hfs', hc₅, heq⟩ := methods_ok hlegal h hmid hrest.sign.1 hless
  obtain ⟨hr, hc₆⟩ := (hc₅.next hrest).sign
  obtain ⟨s, hs⟩ := spanFrom_ok c₁.token c₅.advance
  refine ⟨.classDef s name fs', c₅.advance, by simp only [Stmt.retold, hfs'], hc₆, ?_⟩
  simp only [statement, bind_ok htrace, peek_bind, hk, bind_ok (expect_ok hk), bind_ok hplain,
    bind_ok (expect_ok hl), bind_ok heq, bind_ok (expect_ok hr), bind_ok hs, htext, pure_ok]

/-! ### Loops and branches -/

/-- The words of a condition and of its block are read back. -/
theorem condition_ok {inner : Context} (he : e.Legal known ctx)
    (hlegal : ∀ s ∈ body, s.Legal known inner) (h : ∀ s ∈ body, ReadsStmt m inner s)
    (hc : c.Faces (e.words ++ braces (stmtWords m body)) d)
    (hfuel : 16 * (e.words ++ braces (stmtWords m body)).length ≤ fuel) :
    ∃ e' ss c₁ c₂, e'.bare = e.bare ∧ stmtsRetold .bare ss = stmtsRetold .bare body ∧ c₂.Faces [] d ∧
      expr ctx fuel .or c = .ok e' c₁ ∧ block inner fuel c₁ = .ok ss c₂ := by
  rw [List.length_append] at hfuel
  obtain ⟨mid, hmid, hblock⟩ := hc.split
  have hcond : 16 * e.words.length ≤ fuel := by omega
  obtain ⟨e', c₁, he', hc₁, heq⟩ := (readsBack he).whole hmid (Cursor.Faces.sign hblock).1 hcond
  have hless : 16 * (braces (stmtWords m body)).length ≤ fuel := by omega
  obtain ⟨ss, c₂, hss, hc₂, heq'⟩ := block_ok hlegal h (hc₁.next hblock) hless
  exact ⟨e', ss, c₁, c₂, he', hss, hc₂, heq, heq'⟩

theorem readsStmt_loop (he : e.Legal known ctx) (hlegal : ∀ s ∈ body, s.Legal known ctx.loop)
    (h : ∀ s ∈ body, ReadsStmt m ctx.loop s) : ReadsStmt m ctx (.loop span e body) := by
  refine readsStmt_of_traced fun c₀ c₁ d fuel htrace hc₁ hd hfuel => ?_
  simp only [Stmt.words, List.cons_append, List.length_cons] at hc₁ hfuel
  obtain ⟨hk, hc₂⟩ := hc₁.sign
  have hless : 16 * (e.words ++ braces (stmtWords m body)).length ≤ fuel := by omega
  obtain ⟨e', ss, c₃, c₄, he', hss, hc₄, heq, heq'⟩ := condition_ok he hlegal h hc₂ hless
  obtain ⟨s, hs⟩ := spanFrom_ok c₁.token c₄
  refine ⟨.loop s e' ss, c₄, by simp only [Stmt.retold, he', hss], hc₄, ?_⟩
  simp only [statement, bind_ok htrace, peek_bind, hk, bind_ok (expect_ok hk), bind_ok heq,
    bind_ok heq', bind_ok hs, pure_ok]

theorem readsBranch_none (he : e.Legal known ctx) (hlegal : ∀ s ∈ body, s.Legal known ctx)
    (h : ∀ s ∈ body, ReadsStmt m ctx s) : ReadsBranch m ctx (.branch span e body none) := by
  intro c d fuel hc hd hfuel
  simp only [Stmt.words, List.cons_append, List.length_cons] at hc hfuel
  obtain ⟨fuel, rfl⟩ : ∃ f, fuel = f + 1 := ⟨fuel - 1, by omega⟩
  obtain ⟨hk, hc₁⟩ := hc.sign
  have hless : 16 * (e.words ++ braces (stmtWords m body)).length ≤ fuel := by omega
  obtain ⟨e', ss, c₂, c₃, he', hss, hc₃, heq, heq'⟩ := condition_ok he hlegal h hc₁ hless
  have helse : c₃.token.kind ≠ .elseWord := by
    rw [hc₃.token, hd]
    decide
  obtain ⟨s, hs⟩ := spanFrom_ok c.token c₃
  refine ⟨.branch s e' ss none, c₃, by simp only [Stmt.retold, he', hss], hc₃, ?_⟩
  simp only [branch, bind_ok (expect_ok hk), bind_ok heq, bind_ok heq', peek_bind, if_neg helse,
    bind_ok hs, pure_ok]

theorem elseWords_cases (m : Manner) (ss : List Stmt) :
    (∃ s, ss = [s] ∧ s.isBranch = true ∧ elseWords m ss = s.words m) ∨
      elseWords m ss = braces (stmtWords m ss) := by
  match ss with
  | [] => exact .inr rfl
  | [s] =>
    by_cases hs : (s.isBranch && m.chained s) = true
    · refine .inl ⟨s, rfl, (Bool.and_eq_true_iff.mp hs).1, ?_⟩
      rw [elseWords, if_pos hs]
    · refine .inr ?_
      rw [elseWords, if_neg hs]
      rfl
  | s :: s' :: ss => exact .inr rfl

/-- An `eğer` with another case is read back. -/
theorem readsBranch_some {otherwise : List Stmt} (he : e.Legal known ctx)
    (hlegal : ∀ s ∈ body, s.Legal known ctx) (h : ∀ s ∈ body, ReadsStmt m ctx s)
    (hlegal' : ∀ s ∈ otherwise, s.Legal known ctx) (h' : ∀ s ∈ otherwise, ReadsStmt m ctx s)
    (hbranch : ∀ s ∈ otherwise, s.isBranch = true → ReadsBranch m ctx s) :
    ReadsBranch m ctx (.branch span e body (some otherwise)) := by
  intro c d fuel hc hd hfuel
  simp only [Stmt.words, List.cons_append, List.length_cons] at hc hfuel
  rw [List.length_append, List.length_cons] at hfuel
  obtain ⟨fuel, rfl⟩ : ∃ f, fuel = f + 1 := ⟨fuel - 1, by omega⟩
  obtain ⟨hk, hc₁⟩ := hc.sign
  obtain ⟨mid, hmid, hrest⟩ := hc₁.split
  have hless : 16 * (e.words ++ braces (stmtWords m body)).length ≤ fuel := by omega
  obtain ⟨e', ss, c₂, c₃, he', hss, hc₃, heq, heq'⟩ := condition_ok he hlegal h hmid hless
  obtain ⟨helse, hc₄⟩ := (hc₃.next hrest).sign
  have hless' : 16 * (elseWords m otherwise).length ≤ fuel := by omega
  rcases elseWords_cases m otherwise with ⟨s, rfl, hs, hwords⟩ | hwords
  · rw [hwords] at hc₄ hless'
    obtain ⟨s', c₅, hs', hc₅, heq''⟩ := hbranch s List.mem_cons_self hs _ d fuel hc₄ hd hless'
    have hif : c₃.advance.token.kind = .ifWord := by
      cases s with
      | branch span c body otherwise => cases otherwise <;> exact hc₄.sign.1
      | _ => cases hs
    obtain ⟨span', hspan⟩ := spanFrom_ok c.token c₅
    refine ⟨.branch span' e' ss (some [s']), c₅, by simp only [Stmt.retold, stmtsRetold, he', hss, hs'], hc₅, ?_⟩
    simp only [branch, bind_ok (expect_ok hk), bind_ok heq, bind_ok heq', peek_bind, if_pos helse,
      advance_bind, hif, bind_ok heq'', bind_ok hspan, pure_ok]
  · rw [hwords] at hc₄ hless'
    obtain ⟨ss', c₅, hss', hc₅, heq''⟩ := block_ok hlegal' h' hc₄ hless'
    have hbrace : c₃.advance.token.kind = .leftBrace := hc₄.sign.1
    obtain ⟨span', hspan⟩ := spanFrom_ok c.token c₅
    refine ⟨.branch span' e' ss (some ss'), c₅, by simp only [Stmt.retold, he', hss, hss'], hc₅, ?_⟩
    simp only [branch, bind_ok (expect_ok hk), bind_ok heq, bind_ok heq', peek_bind, if_pos helse,
      advance_bind, hbrace, bind_ok heq'', bind_ok hspan, pure_ok]

theorem ReadsBranch.readsStmt {otherwise : Option (List Stmt)}
    (h : ReadsBranch m ctx (.branch span e body otherwise)) :
    ReadsStmt m ctx (.branch span e body otherwise) := by
  refine readsStmt_of_traced fun c₀ c₁ d fuel htrace hc₁ hd hfuel => ?_
  have hk : c₁.token.kind = .ifWord := by
    cases otherwise <;> exact hc₁.sign.1
  obtain ⟨s', c₂, hs', hc₂, heq⟩ := h c₁ d fuel hc₁ hd (by omega)
  refine ⟨s', c₂, hs', hc₂, ?_⟩
  simp only [statement, bind_ok htrace, peek_bind, hk, heq]

end Compound

/-! ### Programs -/

/-- Every statement is read back where it is legal, an `eğer` also by its own reader. -/
theorem readsStmt (s : Stmt) : ∀ ctx, s.Legal known ctx →
    ReadsStmt m ctx s ∧ (s.isBranch = true → ReadsBranch m ctx s) := by
  induction s using Stmt.induct with
  | function f ih =>
    intro ctx hlegal
    have hbody := stmtsLegal_iff.mp (functionLegal_iff.mp hlegal).2.2.2.2
    exact ⟨readsStmt_function hlegal fun s hs => (ih s hs _ (hbody s hs)).1, nofun⟩
  | classDef span name fs ih =>
    intro ctx hlegal
    obtain ⟨hname, -, hfs⟩ := hlegal
    rw [methodsLegal_iff] at hfs
    refine ⟨readsStmt_classDef hname hfs fun f hf s hs => ?_, nofun⟩
    have hbody := stmtsLegal_iff.mp (functionLegal_iff.mp (hfs f hf)).2.2.2.2
    exact (ih f hf s hs _ (hbody s hs)).1
  | branch span e body ih =>
    intro ctx hlegal
    obtain ⟨he, hbody⟩ := hlegal
    rw [stmtsLegal_iff] at hbody
    have h : ReadsBranch m ctx (.branch span e body none) :=
      readsBranch_none he hbody fun s hs => (ih s hs ctx (hbody s hs)).1
    exact ⟨h.readsStmt, fun _ => h⟩
  | branchElse span e body otherwise ih ih' =>
    intro ctx hlegal
    obtain ⟨he, hbody, hotherwise⟩ := hlegal
    rw [stmtsLegal_iff] at hbody hotherwise
    have h : ReadsBranch m ctx (.branch span e body (some otherwise)) :=
      readsBranch_some he hbody (fun s hs => (ih s hs ctx (hbody s hs)).1) hotherwise
        (fun s hs => (ih' s hs ctx (hotherwise s hs)).1) (fun s hs => (ih' s hs ctx (hotherwise s hs)).2)
    exact ⟨h.readsStmt, fun _ => h⟩
  | loop span e body ih =>
    intro ctx hlegal
    obtain ⟨he, hbody⟩ := hlegal
    rw [stmtsLegal_iff] at hbody
    exact ⟨readsStmt_loop he hbody fun s hs => (ih s hs _ (hbody s hs)).1, nofun⟩
  | ret span value =>
    intro ctx hlegal
    cases value with
    | none => exact ⟨readsStmt_bareReturn hlegal, nofun⟩
    | some e => exact ⟨readsStmt_return hlegal.1 hlegal.2, nofun⟩
  | print span e => exact fun ctx hlegal => ⟨readsStmt_print hlegal, nofun⟩
  | expression span e => exact fun ctx hlegal => ⟨readsStmt_expression hlegal, nofun⟩
  | assign span target e =>
    exact fun ctx hlegal => ⟨readsStmt_assign hlegal.1 hlegal.2.1 hlegal.2.2, nofun⟩
  | breakLoop span => exact fun ctx hlegal => ⟨readsStmt_breakLoop hlegal, nofun⟩
  | continueLoop span => exact fun ctx hlegal => ⟨readsStmt_continueLoop hlegal, nofun⟩
  | absent => exact fun ctx hlegal => absurd hlegal id

/-- Tokens that say the words of a legal program are read as that program, up to its spans. -/
theorem parse_ok {p : Program} {tokens : List Token}
    (hlegal : stmtsLegal (fun _ _ => True) Context.top p.body)
    (htokens : (tokens.takeWhile (·.kind != .endOfInput)).map Token.word = stmtWords m p.body) :
    ∃ q, parse tokens = .ok q ∧ q.bare = p.bare := by
  rw [stmtsLegal_iff] at hlegal
  -- the cursor that stands behind all tokens
  let d : Cursor := { Cursor.ofTokens tokens with rest := [] }
  have hc : (Cursor.ofTokens tokens).Faces
      (List.replicate 0 (sign .semicolon) ++ stmtWords m p.body) d :=
    ⟨_, htokens, (List.append_nil _).symm, rfl⟩
  have hlen : (stmtWords m p.body).length ≤ tokens.length := by
    rw [← htokens, List.length_map]
    exact (List.takeWhile_sublist _).length_le
  have hfuel : 16 * (stmtWords m p.body).length < fuelFor tokens := by
    unfold fuelFor
    omega
  obtain ⟨ss, c', hss, -, heq⟩ := statements_ok hlegal (fun s hs => (readsStmt s _ (hlegal s hs)).1) hc
    (endBehind_kind tokens) ⟨by decide, by decide⟩ hfuel
  refine ⟨⟨programSpan (Cursor.ofTokens tokens).token ss, ss⟩, ?_, by simp only [Program.retold, hss]⟩
  simp only [parse, run, program, peek_bind, bind_ok heq, pure_ok, Reply.result]

/-- Written in any manner, a legal program is read back up to its spans, and no other legal program is
written so. -/
theorem parse_words (m : Manner) {p : Program} {tokens : List Token}
    (hlegal : stmtsLegal (fun _ _ => True) Context.top p.body)
    (htokens : (tokens.takeWhile (·.kind != .endOfInput)).map Token.word = stmtWords m p.body) :
    (∃ q, parse tokens = .ok q ∧ q.bare = p.bare) ∧
      ∀ (m' : Manner) (p' : Program), stmtsLegal (fun _ _ => True) Context.top p'.body →
        stmtWords m' p'.body = stmtWords m p.body → p'.bare = p.bare := by
  obtain ⟨q, hq, hbare⟩ := parse_ok hlegal htokens
  refine ⟨⟨q, hq, hbare⟩, fun m' p' hlegal' hwords => ?_⟩
  obtain ⟨q', hq', hbare'⟩ := parse_ok hlegal' (htokens.trans hwords.symm)
  obtain rfl : q = q' := Except.ok.inj (hq.symm.trans hq')
  exact hbare'.symm.trans hbare

/-- A class whose method loops, with an `eğer` behind a `değilse`, operands on both sides that need
parentheses and some that do not, and a bare `dön` with statements behind it. -/
def countdown : Program where
  span := .none
  body := [
    .classDef .none "Sayaç" [⟨.none, "say", ["n", "adım"], [
      .assign .none (.member .none (.self .none) "kalan")
        (.binary .none .star (.binary .none .minus (.binary .none .minus (.name .none "n")
          (.literal .none (.number "1"))) (.binary .none .minus (.name .none "n")
            (.unary .none .minus (.name .none "adım")))) (.literal .none (.number "2"))),
      .loop .none (.unary .none .notWord (.binary .none .less (.binary .none .less (.name .none "n")
          (.literal .none (.number "0"))) (.binary .none .equal (.name .none "adım")
            (.literal .none (.boolean true))))) [
        .branch .none (.name .none "n") [.breakLoop .none] (some [
          .branch .none (.literal .none .null) [.continueLoop .none] (some [])])],
      .ret .none none,
      .expression .none (.call .none (.member .none (.unary .none .minus (.self .none)) "yaz")
        [.name .none "n", .literal .none (.string "\"x\"")])]⟩],
    .print .none (.call .none (.name .none "Sayaç") [])]

/-- Tokens that write `countdown`, each `eğer` right behind its `değilse`. -/
def countdownTokens : List Token :=
  Token.ofWords (stmtWords ⟨fun _ => true, fun _ => false⟩ countdown.body)

theorem parse_words_countdown :
    ∃ q, parse countdownTokens = .ok q ∧ q.bare = countdown.bare := by
  have hlegal : stmtsLegal (fun _ _ => True) Context.top countdown.body := by
    simp only [countdown, stmtsLegal, Stmt.Legal, methodsLegal, functionLegal, Expr.Legal, exprsLegal,
      Literal.Legal, and_true, true_and, true_implies]
    decide +kernel
  have htokens : (countdownTokens.takeWhile (·.kind != .endOfInput)).map Token.word =
      stmtWords ⟨fun _ => true, fun _ => false⟩ countdown.body := by decide +kernel
  exact (parse_words _ hlegal htokens).1

end Parser

end Anadil
