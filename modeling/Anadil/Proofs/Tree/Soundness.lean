import Anadil.Proofs.Tree.Grammar
import Anadil.Proofs.Tree.Reading
import Anadil.Proofs.Tree.Seats

/-! # Soundness of the reading

Whatever a reader gives is derived from the grammar by the tokens that it passed, it is legal where it
stands, and its nodes sit on these tokens. The readers of expressions call each other, and so do those of
statements, so each of the two groups is treated by one induction on the fuel: `ExprsSound` and
`StmtsSound` say what is to be shown of every reader of a group. -/

namespace Anadil

open Grammar TreeNode

namespace Parser

variable {fuel : Nat} {tokens : List Token} {p : Program}

/-! ### Levels -/

/-- The part of the grammar that an expression of a level is. -/
def Level.part : Level → Expr → Part
  | .or => .or
  | .and => .and
  | .not => .not
  | .comparison => .comparison
  | .sum => .sum
  | .product => .product
  | .negation => .negation
  | .access => .access

namespace Level
variable {level : Level} {e l r : Expr} {span : Span} {o : Token} {ts us : List Token}

theorem derives_tighter (h : Derives (level.tighter.part e) ts) : Derives (level.part e) ts := by
  cases level with
  | or => exact .or h
  | and => exact .and h
  | not => exact .not h
  | comparison => exact .comparison h
  | sum => exact .sum h
  | product => exact .product h
  | negation => exact .negation h
  | access => exact h

theorem derives_join (ho : o.kind ∈ level.operators) (hl : Derives (level.part l) ts)
    (hr : Derives (level.tighter.part r) us) :
    Derives (level.part (.binary span o.kind l r)) (ts ++ o :: us) := by
  cases level with
  | or => exact .orJoin hl ho hr
  | and => exact .andJoin hl ho hr
  | comparison => exact .comparisonJoin hl ho hr
  | sum => exact .sumJoin hl ho hr
  | product => exact .productJoin hl ho hr
  | not | negation | access => cases ho

theorem derives_lead (ho : o.kind ∈ level.leading) (h : Derives (level.part e) ts) :
    Derives (level.part (.unary span o.kind e)) (o :: ts) := by
  cases level with
  | not => exact .notLead ho h
  | negation => exact .negationLead (List.mem_singleton.mp ho) h
  | or | and | comparison | sum | product | access => cases ho

theorem derives_or (h : Derives (level.part e) ts) : Derives (.or e) ts := by
  cases level with
  | or => exact h
  | and => exact .or h
  | not => exact .or (.and h)
  | comparison => exact .or (.and (.not h))
  | sum => exact .or (.and (.not (.comparison h)))
  | product => exact .or (.and (.not (.comparison (.sum h))))
  | negation => exact .or (.and (.not (.comparison (.sum (.product h)))))
  | access => exact .or (.and (.not (.comparison (.sum (.product (.negation h))))))

theorem joining_of_mem_operators :
    ∀ kind ∈ level.operators, kind ∈ joiningKinds ∧ kind ≠ .endOfInput := by
  cases level <;> decide

theorem leading_of_mem_leading :
    ∀ kind ∈ level.leading, kind ∈ leadingKinds ∧ kind ≠ .endOfInput := by
  cases level <;> decide

end Level

/-! ### What a reading ensures -/

/-- Tokens that an expression was read from: they derive it, and it was legal where it stood. -/
def Whole (known : Lexicon) (e : Expr) (ts : List Token) : Prop := Derives (.or e) ts ∧ ∃ ctx, e.Legal known ctx

/-- The tokens passed derive what was read, which is legal. If the tokens of the input stand in order, its
nodes sit on those passed. -/
structure Sound (known : Lexicon) (src : Cursor) (part : Part) (legality : Prop) (nodes : List TreeNode)
    (ts : List Token) : Prop where
  derives : Derives part ts
  legal : legality
  seated : InOrder src.rest → Seated (Whole known) nodes ts

/-- An expression of a level and the tokens that it was read from. Parentheses around it belong to none of its
nodes. -/
structure Expression (known : Lexicon) (src : Cursor) (ctx : Context) (level : Level) (ts : List Token)
    (e : Expr) : Prop extends Sound known src (level.part e) (e.Legal known ctx) [.expr e] ts where
  ne_nil : ts ≠ []

/-- A statement and the tokens that it was read from. -/
def Statement (known : Lexicon) (src : Cursor) (ctx : Context) (ts : List Token) (s : Stmt) : Prop :=
  Sound known src (.statement s) (s.Legal known ctx) [.stmt s] ts

section Sound
variable {known : Lexicon} {src : Cursor} {ts before : List Token} {ctx : Context} {level : Level} {e : Expr}
  {t : Token} {part part' : Part} {legality : Prop} {nodes : List TreeNode}

theorem Sound.change (h : Sound known src part legality nodes ts) (hd : Derives part ts → Derives part' ts) :
    Sound known src part' legality nodes ts :=
  ⟨hd h.derives, h.legal, h.seated⟩

theorem Expression.tighter (h : Expression known src ctx level.tighter ts e) :
    Expression known src ctx level ts e :=
  ⟨h.change Level.derives_tighter, h.ne_nil⟩

/-- A node whose span goes over the tokens has its seat there. -/
theorem Expression.of_over (hd : Derives (level.part e) ts) (hl : e.Legal known ctx) (hne : ts ≠ [])
    (hspan : InOrder src.rest → e.span.Over ts)
    (hparts : InOrder src.rest → Seated (Whole known) (e.parts.map .expr) ts) :
    Expression known src ctx level ts e where
  derives := hd
  legal := hl
  ne_nil := hne
  seated ho := by
    refine (Seated.sits (n := .expr e) (hparts ho) (hspan ho) fun x hx => ?_).seated
    obtain rfl := TreeNode.expr.inj hx
    exact ⟨Level.derives_or hd, ctx, hl⟩

theorem Expression.of_token (hd : Derives (.primary e) [t]) (hl : e.Legal known ctx) (hspan : e.span = t.span)
    (hparts : e.parts = []) : Expression known src ctx .access [t] e := by
  refine .of_over (.access hd) hl (by simp) (fun _ => ⟨t, t, rfl, rfl, hspan⟩) fun _ => ?_
  rw [hparts]
  exact seated_nil _

theorem Sound.stmt_of_over {s : Stmt} (hd : Derives part ts) (hl : legality) (hspan : InOrder src.rest → s.span.Over ts)
    (hchildren : InOrder src.rest → Seated (Whole known) (s.exprs.map .expr ++ s.stmts.map .stmt) ts) :
    Sound known src part legality [.stmt s] ts where
  derives := hd
  legal := hl
  seated ho := (Seated.sits (n := .stmt s) (hchildren ho) (hspan ho) fun _ h => by cases h).seated

/-- A span from the token that a reader began with goes over all tokens passed since then. -/
theorem readsAt_spanFrom {α : Type} {start : Token} {k : Span → Reader α} {P : List Token → α → Prop}
    (hstart : before.head? = some start)
    (h : ∀ s : Span, (InOrder src.rest → s.Over before) → ∀ u, ReadsAt src before u (k s) P) :
    ReadsAt src before t (spanFrom start >>= k) P := by
  intro c hc ht
  refine h _ (fun ho => ?_) t c hc ht
  obtain ⟨last, hlast⟩ : ∃ last, before.getLast? = some last := by
    obtain ⟨rest, rfl⟩ := List.head?_eq_some_iff.mp hstart
    exact ⟨_, List.getLast?_eq_some_getLast (List.cons_ne_nil start rest)⟩
  have hover : (Span.join start.span last.span).Over before := ⟨start, last, hstart, hlast, rfl⟩
  have hsub := (List.sublist_append_left before c.rest).trans hc.tokens.sublist
  have hle : start.span.start ≤ last.span.start :=
    (hover.bounds (ho.sublist hsub) (List.mem_of_getLast? hlast)).1
  simpa only [hc.previous last hlast, if_neg (Int.not_lt.mpr hle)] using hover

/-- What is made with a span from the token that a reader began with. -/
theorem readsAt_spanned {α : Type} {start : Token} {make : Span → α} {P : List Token → α → Prop}
    (hstart : before.head? = some start) (h : ∀ s : Span, (InOrder src.rest → s.Over before) → P before (make s)) :
    ReadsAt src before t (spanFrom start >>= fun s => pure (make s)) P :=
  readsAt_spanFrom hstart fun s hs _ => readsAt_pure (h s hs)

end Sound

/-! ### Expressions -/

/-- What is to be shown of the readers of expressions. -/
structure ExprsSound (known : Lexicon) (src : Cursor) (ctx : Context) (fuel : Nat) : Prop where
  expr : ∀ level t, ReadsAt src [] t (expr ctx fuel level) (Expression known src ctx level)
  /-- What stands before a chain of operators is its first operand. -/
  chain : ∀ level {start left before} t, before.head? = some start → Expression known src ctx level before left →
    ReadsAt src before t (chain ctx fuel level start left) (Expression known src ctx level)
  trail : ∀ {start x before} t, before.head? = some start → Expression known src ctx .access before x →
    ReadsAt src before t (trail ctx fuel start x) (Expression known src ctx .access)
  arguments : ∀ t, ReadsAt src [] t (arguments ctx fuel) fun ts es =>
    Sound known src (.args es) (exprsLegal known ctx es) (es.map .expr) ts
  expressions : ∀ t, ReadsAt src [] t (expressions ctx fuel) fun ts es =>
    Sound known src (.exprs es) (exprsLegal known ctx es) (es.map .expr) ts
  primary : ∀ t, ReadsAt src [] t (primary ctx fuel) (Expression known src ctx .access)

namespace ExprsSound
variable {known : Lexicon} {src : Cursor} {ctx : Context} {before : List Token} {start t : Token} {x : Expr}

theorem zero : ExprsSound known src ctx 0 where
  expr _ _ := by unfold Parser.expr; exact readsAt_spend
  chain _ _ _ _ _ _ _ := by unfold Parser.chain; exact readsAt_spend
  trail _ _ _ := by unfold Parser.trail; exact readsAt_spend
  arguments _ := by unfold Parser.arguments; exact readsAt_spend
  expressions _ := by unfold Parser.expressions; exact readsAt_spend
  primary _ := by unfold Parser.primary; exact readsAt_spend

theorem expr_succ (ih : ExprsSound known src ctx fuel) (level : Level) (t : Token) :
    ReadsAt src [] t (Parser.expr ctx (fuel + 1) level) (Expression known src ctx level) := by
  by_cases hlevel : level = .access
  · subst hlevel
    unfold Parser.expr
    refine readsAt_peek fun _ => (ih.primary t).call fun us x hhead hx u => ?_
    exact ih.trail u (hhead hx.ne_nil) hx
  rw [expr_of_ne_access hlevel]
  refine readsAt_peek fun _ => readsAt_ite (fun hop => ?_) fun _ => ?_
  · -- an operator in front of its operand
    obtain ⟨hlead, hne⟩ := Level.leading_of_mem_leading _ hop
    refine readsAt_advance hne fun _ u => ?_
    refine (ih.expr level u).call fun us e _ he u => ?_
    exact readsAt_spanned rfl fun s hs => .of_over (Level.derives_lead hop he.derives) ⟨hlead, he.legal⟩ (by simp) hs
      fun ho => (he.seated ho).behind _
  · refine (ih.expr level.tighter t).call fun us left hhead hleft u => ?_
    exact ih.chain level u (hhead hleft.ne_nil) hleft.tighter

theorem chain_succ (ih : ExprsSound known src ctx fuel) (level : Level) (hstart : before.head? = some start)
    (hx : Expression known src ctx level before x) :
    ReadsAt src before t (Parser.chain ctx (fuel + 1) level start x) (Expression known src ctx level) := by
  unfold Parser.chain
  refine readsAt_peek fun _ => readsAt_ite (fun hop => ?_) fun _ => readsAt_pure hx
  obtain ⟨hjoin, hne⟩ := Level.joining_of_mem_operators _ hop
  refine readsAt_advance hne fun _ u => ?_
  refine (ih.expr level.tighter u).call fun us y _ hy u => ?_
  have hhead : (before ++ [t] ++ us).head? = some start := by
    simp [List.head?_append, hstart]
  refine readsAt_spanFrom hhead fun s hs u => ?_
  refine ih.chain level u hhead (.of_over ?_ ⟨hjoin, hx.legal, hy.legal⟩ (by simp) hs fun ho => ?_)
  · simpa using Level.derives_join hop hx.derives hy.derives
  · exact ((hx.seated ho).before [t]).append (hy.seated ho)

theorem trail_succ (ih : ExprsSound known src ctx fuel) (hknown : ∀ t ∈ src.rest, known t.kind t.text)
    (hstart : before.head? = some start) (hx : Expression known src ctx .access before x) :
    ReadsAt src before t (Parser.trail ctx (fuel + 1) start x) (Expression known src ctx .access) := by
  unfold Parser.trail
  refine readsAt_peek fun _ => ?_
  cases hk : t.kind with
  | leftParen =>
    refine readsAt_ite (fun hplace => ?_) fun _ => readsAt_refuse
    refine readsAt_advance (by rw [hk]; decide) fun _ u => ?_
    refine (ih.arguments u).call fun us args _ hargs r => ?_
    refine readsAt_closeList.bind ?_
    rintro _ _ ⟨rfl, -, hr⟩ u
    have hhead : (before ++ [t] ++ us ++ [r]).head? = some start := by
      simp [List.head?_append, hstart]
    refine readsAt_spanFrom hhead fun s hs u => ?_
    refine ih.trail u hhead (.of_over ?_ ⟨hplace, hx.legal, hargs.legal⟩ (by simp) hs fun ho => ?_)
    · simpa [Level.part] using Derives.call hx.derives hk hargs.derives hr
    · exact (((hx.seated ho).before [t]).append (hargs.seated ho)).before [r]
  | dot =>
    refine readsAt_advance (by rw [hk]; decide) fun _ n => ?_
    refine readsAt_memberName.bind ?_
    rintro _ _ ⟨rfl, hmem, rfl, hn, hreserved⟩ u
    have hhead : (before ++ [t] ++ [n]).head? = some start := by
      simp [List.head?_append, hstart]
    refine readsAt_spanFrom hhead fun s hs u => ?_
    refine ih.trail u hhead (.of_over ?_ ⟨hx.legal, hreserved, hn ▸ hknown n hmem⟩ (by simp) hs fun ho => ?_)
    · simpa [Level.part] using Derives.member hx.derives hk hn
    · exact ((hx.seated ho).before [t]).before [n]
  | _ => exact readsAt_pure hx

theorem arguments_succ (ih : ExprsSound known src ctx fuel) (t : Token) :
    ReadsAt src [] t (Parser.arguments ctx (fuel + 1)) fun ts es =>
      Sound known src (.args es) (exprsLegal known ctx es) (es.map .expr) ts := by
  unfold Parser.arguments
  refine readsAt_peek fun _ => readsAt_ite (fun _ => readsAt_pure ⟨.noArg, trivial, fun _ => seated_nil _⟩) fun _ => ?_
  exact (ih.expressions t).imp fun ts es hes => hes.change .args

theorem expressions_succ (ih : ExprsSound known src ctx fuel) (t : Token) :
    ReadsAt src [] t (Parser.expressions ctx (fuel + 1)) fun ts es =>
      Sound known src (.exprs es) (exprsLegal known ctx es) (es.map .expr) ts := by
  unfold Parser.expressions
  refine (ih.expr .or t).bind ?_
  intro ts e he sep
  refine readsAt_peek fun _ => readsAt_ite (fun hk => ?_) fun _ => ?_
  · refine readsAt_advance (by rw [hk]; decide) fun _ u => ?_
    refine (ih.expressions u).call fun us es _ hes u => ?_
    refine readsAt_pure ⟨?_, ⟨he.legal, hes.legal⟩, fun ho => ?_⟩
    · simpa using Derives.exprs he.derives hk hes.derives
    · exact ((he.seated ho).before [sep]).append (hes.seated ho)
  · exact readsAt_pure ⟨.oneExpr he.derives, ⟨he.legal, trivial⟩, he.seated⟩

theorem primary_token (hne : t.kind ≠ .endOfInput) (hd : Derives (.primary x) [t])
    (hl : t ∈ src.rest → x.Legal known ctx) (hspan : x.span = t.span) (hparts : x.parts = []) :
    ReadsAt src [] t (do let _ ← advance; return x : Reader Expr) (Expression known src ctx .access) := by
  refine readsAt_advance hne fun hmem u => ?_
  exact readsAt_pure (.of_token hd (hl hmem) hspan hparts)

theorem primary_succ (ih : ExprsSound known src ctx fuel) (hknown : ∀ t ∈ src.rest, known t.kind t.text) (t : Token) :
    ReadsAt src [] t (Parser.primary ctx (fuel + 1)) (Expression known src ctx .access) := by
  unfold Parser.primary
  refine readsAt_peek fun ht => ?_
  cases hk : t.kind with
  | number =>
    have hword : t ∈ src.rest → known .number t.text := fun hmem => hk ▸ hknown t hmem
    exact primary_token (by rw [hk]; decide) (.number hk) hword rfl rfl
  | string =>
    have hword : t ∈ src.rest → known .string t.text := fun hmem => hk ▸ hknown t hmem
    exact primary_token (by rw [hk]; decide) (.string hk) hword rfl rfl
  | trueWord => exact primary_token (by rw [hk]; decide) (.true hk) (fun _ => trivial) rfl rfl
  | falseWord => exact primary_token (by rw [hk]; decide) (.false hk) (fun _ => trivial) rfl rfl
  | nullWord => exact primary_token (by rw [hk]; decide) (.null hk) (fun _ => trivial) rfl rfl
  | thisWord =>
    refine readsAt_ite (fun hm => ?_) fun _ => readsAt_refuseAt ht (List.prefix_append _ _)
    exact primary_token (by rw [hk]; decide) (.self hk) (fun _ => hm) rfl rfl
  | identifier =>
    refine readsAt_plainName.bind ?_
    rintro _ _ ⟨rfl, hmem, rfl, -, hmay⟩ u
    exact readsAt_pure (.of_token (.name hk) ⟨hmay, hk ▸ hknown t hmem⟩ rfl rfl)
  | leftParen =>
    refine readsAt_advance (by rw [hk]; decide) fun _ u => ?_
    refine (ih.expr .or u).call fun us e _ he r => ?_
    refine readsAt_expect fun hr _ u => ?_
    exact readsAt_pure ⟨⟨.access (.parens hk he.derives hr), he.legal,
      fun ho => ((he.seated ho).behind _).before _⟩, by simp⟩
  | _ => exact readsAt_refuse

end ExprsSound

/-- All readers of expressions are sound, whatever their fuel. -/
theorem exprsSound {known : Lexicon} {src : Cursor} (hknown : ∀ t ∈ src.rest, known t.kind t.text) (ctx : Context)
    (fuel : Nat) : ExprsSound known src ctx fuel := by
  induction fuel with
  | zero => exact .zero
  | succ fuel ih => exact {
      expr := ih.expr_succ
      chain := fun level _ _ _ _ hstart hx => ih.chain_succ level hstart hx
      trail := fun _ hstart hx => ih.trail_succ hknown hstart hx
      arguments := ih.arguments_succ
      expressions := ih.expressions_succ
      primary := ih.primary_succ hknown }

/-! ### Statements without statements in them -/

section Simple
variable {known : Lexicon} {src : Cursor} {ctx : Context} {t : Token}

theorem simple_sound (ih : ExprsSound known src ctx fuel) (t : Token) :
    ReadsAt src [] t (simple ctx fuel) (Statement known src ctx) := by
  unfold simple
  refine readsAt_peek fun ht => (ih.expr .or t).call fun us x hhead hx o => ?_
  have hstart := hhead hx.ne_nil
  refine readsAt_peek fun _ => readsAt_ite (fun hk => ?_) fun _ => ?_
  · refine readsAt_ite (fun hplace => ?_) fun _ => readsAt_refuseAt ht (List.prefix_refl _)
    refine readsAt_advance (by rw [hk]; decide) fun _ u => ?_
    refine (ih.expr .or u).call fun vs y _ hy u => ?_
    have hhead : (us ++ [o] ++ vs).head? = some t := by
      simp [List.head?_append, hstart]
    refine readsAt_spanned hhead fun s hs => .stmt_of_over ?_ ⟨hplace, hx.legal, hy.legal⟩ hs fun ho => ?_
    · simpa using Derives.assign hx.derives hplace hk hy.derives
    · exact ((hx.seated ho).before [o]).append (hy.seated ho)
  · exact readsAt_spanned hstart fun s hs => .stmt_of_over (.expression hx.derives) hx.legal hs hx.seated

theorem returnStmt_sound (ih : ExprsSound known src ctx fuel) (hk : t.kind = .returnWord) :
    ReadsAt src [] t (returnStmt ctx fuel) (Statement known src ctx) := by
  unfold returnStmt
  refine readsAt_peek fun ht => readsAt_ite (fun hfun => ?_) fun _ => readsAt_refuseAt ht (List.prefix_append _ _)
  refine readsAt_advance (by rw [hk]; decide) fun _ u => ?_
  refine readsAt_peek fun _ => readsAt_ite (fun _ => ?_) fun _ => ?_
  · exact readsAt_spanned rfl fun s hs => .stmt_of_over (.ret hk) hfun hs fun _ => seated_nil _
  · refine (ih.expr .or u).call fun us x _ hx u => ?_
    exact readsAt_spanned rfl fun s hs =>
      .stmt_of_over (.retValue hk hx.derives) ⟨hfun, hx.legal⟩ hs fun ho => (hx.seated ho).behind _

theorem printStmt_sound (ih : ExprsSound known src ctx fuel) (t : Token) :
    ReadsAt src [] t (printStmt ctx fuel) (Statement known src ctx) := by
  unfold printStmt
  refine readsAt_expect fun hk _ l => ?_
  refine readsAt_expect fun hl _ u => ?_
  refine (ih.expr .or u).call fun us x _ hx r => ?_
  refine readsAt_expect fun hr _ u => ?_
  exact readsAt_spanned rfl fun s hs => .stmt_of_over (.print hk hl hx.derives hr) hx.legal hs
    fun ho => ((hx.seated ho).behind _).before _

theorem loopControl_sound (hk : t.kind = .breakWord ∨ t.kind = .continueWord) :
    ReadsAt src [] t (loopControl ctx) (Statement known src ctx) := by
  unfold loopControl
  refine readsAt_peek fun ht => readsAt_ite (fun hloop => ?_) fun _ => readsAt_refuseAt ht (List.prefix_append _ _)
  have hover : InOrder src.rest → t.span.Over [t] := fun _ => ⟨t, t, rfl, rfl, rfl⟩
  refine readsAt_advance (by rcases hk with hk | hk <;> rw [hk] <;> decide) fun _ u => ?_
  refine readsAt_pure ?_
  rcases hk with hk | hk
  · rw [if_pos hk]
    exact .stmt_of_over (.breakLoop hk) hloop hover fun _ => seated_nil _
  · rw [if_neg (by simp [hk])]
    exact .stmt_of_over (.continueLoop hk) hloop hover fun _ => seated_nil _

/-- Parameters are names of their place, none of them twice and none seen before. -/
theorem parameters_sound (hknown : ∀ t ∈ src.rest, known t.kind t.text) (fuel : Nat) (seen : List Text) (t : Token) :
    ReadsAt src [] t (parameters ctx fuel seen) fun ts names =>
      Derives (.names names) ts ∧ (∀ n ∈ names, ctx.MayName n ∧ known .identifier n) ∧
        names.Nodup ∧ ∀ n ∈ names, n ∉ seen := by
  induction fuel generalizing seen t with
  | zero => exact readsAt_spend
  | succ fuel ih =>
    unfold parameters
    refine readsAt_plainName.bind ?_
    rintro _ _ ⟨rfl, hmem, rfl, hk, hmay⟩ sep
    have hname := And.intro hmay (hk ▸ hknown t hmem)
    refine readsAt_ite (fun _ => readsAt_refuseAt (List.mem_cons_of_mem _ hmem) (List.prefix_refl _)) fun hseen => ?_
    rw [List.contains_iff_mem] at hseen
    refine readsAt_peek fun _ => readsAt_ite (fun hsep => ?_) fun _ => ?_
    · refine readsAt_advance (by rw [hsep]; decide) fun _ u => ?_
      refine (ih _ u).call fun us more _ ⟨hd, hall, hnodup, hfresh⟩ u => ?_
      refine readsAt_pure ⟨.names hk hsep hd, List.forall_mem_cons.mpr ⟨hname, hall⟩, ?_, ?_⟩
      · exact List.nodup_cons.mpr ⟨fun hmem => hfresh _ hmem List.mem_cons_self, hnodup⟩
      · exact List.forall_mem_cons.mpr ⟨hseen, fun n hmem hs => hfresh n hmem (List.mem_cons_of_mem _ hs)⟩
    · exact readsAt_pure ⟨.oneName hk, List.forall_mem_singleton.mpr hname, by simp,
        List.forall_mem_singleton.mpr hseen⟩

end Simple

/-! ### Statements and blocks -/

/-- Semicolons in front of what they may stand in front of. -/
theorem derives_skips {part : Part} (hskip : ∀ {t ts}, t.kind = .semicolon → Derives part ts → Derives part (t :: ts))
    {ts us : List Token} (hs : ∀ t ∈ ts, t.kind = .semicolon) (h : Derives part us) : Derives part (ts ++ us) := by
  induction ts with
  | nil => exact h
  | cons t ts ih =>
    obtain ⟨ht, hs⟩ := List.forall_mem_cons.mp hs
    exact hskip ht (ih hs)

/-- What is to be shown of the readers of statements, in every context. -/
structure StmtsSound (known : Lexicon) (src : Cursor) (fuel : Nat) : Prop where
  statements : ∀ ctx stop t, ReadsAt src [] t (statements ctx stop fuel) fun ts body =>
    Sound known src (.statements body) (stmtsLegal known ctx body) (body.map .stmt) ts
  block : ∀ ctx t, ReadsAt src [] t (block ctx fuel) fun ts body =>
    Sound known src (.block body) (stmtsLegal known ctx body) (body.map .stmt) ts
  statement : ∀ ctx t, ReadsAt src [] t (statement ctx fuel) (Statement known src ctx)
  function : ∀ ctx isMethod t, ReadsAt src [] t (function ctx isMethod fuel) fun ts f =>
    Sound known src (.function f) (functionLegal known ctx isMethod f) [.stmt (.function f)] ts
  methods : ∀ ctx t, ReadsAt src [] t (methods ctx fuel) fun ts fs =>
    Sound known src (.methods fs) (methodsLegal known ctx fs) ((fs.map Stmt.function).map .stmt) ts
  branch : ∀ ctx t, ReadsAt src [] t (branch ctx fuel) fun ts s =>
    Sound known src (.branch s) (s.Legal known ctx) [.stmt s] ts

namespace StmtsSound
variable {known : Lexicon} {src : Cursor}

theorem zero : StmtsSound known src 0 where
  statements _ _ _ := by unfold Parser.statements; exact readsAt_spend
  block _ _ := by unfold Parser.block; exact readsAt_spend
  statement _ _ := by unfold Parser.statement; exact readsAt_spend
  function _ _ _ := by unfold Parser.function; exact readsAt_spend
  methods _ _ := by unfold Parser.methods; exact readsAt_spend
  branch _ _ := by unfold Parser.branch; exact readsAt_spend

theorem statements_succ (ih : StmtsSound known src fuel) (ctx : Context) (stop : Kind) (t : Token) :
    ReadsAt src [] t (Parser.statements ctx stop (fuel + 1)) fun ts body =>
      Sound known src (.statements body) (stmtsLegal known ctx body) (body.map .stmt) ts := by
  unfold Parser.statements
  refine readsAt_skipSemicolons fun us hus u => ?_
  refine readsAt_peek fun _ => readsAt_ite (fun _ => ?_) fun _ => ?_
  · refine readsAt_pure ⟨?_, trivial, fun _ => seated_nil _⟩
    simpa using derives_skips .skip hus .noStatement
  refine readsAt_ite (fun _ => readsAt_refuse) fun _ => ?_
  refine (ih.statement ctx u).call fun vs s _ hs u => ?_
  refine (ih.statements ctx stop u).call fun ws body _ hbody u => ?_
  refine readsAt_pure ⟨?_, ⟨hs.legal, hbody.legal⟩, fun ho => ((hs.seated ho).behind us).append (hbody.seated ho)⟩
  simpa using derives_skips .skip hus (.statements hs.derives hbody.derives)

theorem block_succ (ih : StmtsSound known src fuel) (ctx : Context) (t : Token) :
    ReadsAt src [] t (Parser.block ctx (fuel + 1)) fun ts body =>
      Sound known src (.block body) (stmtsLegal known ctx body) (body.map .stmt) ts := by
  unfold Parser.block
  refine readsAt_expect fun hl _ u => ?_
  refine (ih.statements ctx .rightBrace u).call fun us body _ hbody r => ?_
  refine readsAt_expect fun hr _ u => ?_
  exact readsAt_pure ⟨.block hl hbody.derives hr, hbody.legal, fun ho => ((hbody.seated ho).behind _).before _⟩

theorem function_succ (ih : StmtsSound known src fuel) (hknown : ∀ t ∈ src.rest, known t.kind t.text) (ctx : Context)
    (isMethod : Bool) (t : Token) :
    ReadsAt src [] t (Parser.function ctx isMethod (fuel + 1)) fun ts f =>
      Sound known src (.function f) (functionLegal known ctx isMethod f) [.stmt (.function f)] ts := by
  unfold Parser.function
  refine readsAt_expect fun hk _ n => ?_
  refine readsAt_plainName.bind ?_
  rintro _ _ ⟨rfl, hmem, rfl, hn, hmay⟩ l
  have hname := And.intro hmay (hn ▸ hknown n hmem)
  refine readsAt_expect fun hl _ u => ?_
  -- whether or not there are parameters, the reading goes on behind them
  have hrest : ∀ us params u, Derives (.params params) us → (∀ n ∈ params, ctx.MayName n ∧ known .identifier n) →
      params.Nodup → (isMethod = true → ("self" : Text) ∉ params) → ReadsAt src ([t, n, l] ++ us) u (do
        closeList
        let body ← Parser.block (ctx.function isMethod) fuel
        return ⟨← spanFrom t, n.text, params, body⟩ : Reader (Function Stmt)) fun ts f =>
          Sound known src (.function f) (functionLegal known ctx isMethod f) [.stmt (.function f)] ts := by
    intro us params r hd hall hnodup hself
    refine readsAt_closeList.bind ?_
    rintro _ _ ⟨rfl, -, hr⟩ u
    refine (ih.block _ u).call fun vs body _ hbody u => ?_
    refine readsAt_spanned rfl fun s hs => .stmt_of_over ?_ ⟨hname, hall, hnodup, hself, hbody.legal⟩ hs
      fun ho => (hbody.seated ho).behind _
    simpa using Derives.function hk hn hl hd hr hbody.derives
  refine readsAt_peek fun _ => readsAt_ite (fun _ => ?_) fun _ => ?_
  · exact hrest [] [] u .noParam (by simp) .nil (by simp)
  refine (parameters_sound hknown fuel _ u).call fun us params _ ⟨hd, hall, hnodup, hfresh⟩ u => ?_
  exact hrest us params u (.params hd) hall hnodup fun hm hmem => hfresh _ hmem (by simp [hm])

theorem methods_succ (ih : StmtsSound known src fuel) (ctx : Context) (t : Token) :
    ReadsAt src [] t (Parser.methods ctx (fuel + 1)) fun ts fs =>
      Sound known src (.methods fs) (methodsLegal known ctx fs) ((fs.map Stmt.function).map .stmt) ts := by
  unfold Parser.methods
  refine readsAt_skipSemicolons fun us hus u => ?_
  refine readsAt_peek fun _ => readsAt_ite (fun _ => ?_) fun _ => ?_
  · refine readsAt_pure ⟨?_, trivial, fun _ => seated_nil _⟩
    simpa using derives_skips .skipMethod hus .noMethod
  refine readsAt_ite (fun _ => ?_) fun _ => readsAt_refuse
  refine (ih.function ctx true u).call fun vs f _ hf u => ?_
  refine (ih.methods ctx u).call fun ws fs _ hfs u => ?_
  refine readsAt_pure ⟨?_, ⟨hf.legal, hfs.legal⟩, fun ho => ((hf.seated ho).behind us).append (hfs.seated ho)⟩
  simpa using derives_skips .skipMethod hus (.methods hf.derives hfs.derives)

theorem branch_succ (ih : StmtsSound known src fuel) (hknown : ∀ t ∈ src.rest, known t.kind t.text) (ctx : Context)
    (t : Token) : ReadsAt src [] t (Parser.branch ctx (fuel + 1)) fun ts s =>
      Sound known src (.branch s) (s.Legal known ctx) [.stmt s] ts := by
  unfold Parser.branch
  refine readsAt_expect fun hk _ u => ?_
  refine ((exprsSound hknown ctx fuel).expr .or u).call fun us c _ hc u => ?_
  refine (ih.block ctx u).call fun vs body _ hbody o => ?_
  have hfirst := fun ho => ((hc.seated ho).behind [t]).append (hbody.seated ho)
  refine readsAt_peek fun _ => readsAt_ite (fun ho => ?_) fun _ => ?_
  · refine readsAt_advance (by rw [ho]; decide) fun _ u => ?_
    refine readsAt_peek fun _ => ?_
    cases u.kind with
    | ifWord =>
      refine (ih.branch ctx u).call fun ws chained _ hchained u => ?_
      refine readsAt_spanned rfl fun s hs =>
        .stmt_of_over ?_ ⟨hc.legal, hbody.legal, hchained.legal, trivial⟩ hs fun hord => ?_
      · simpa using Derives.branchElseIf hk hc.derives hbody.derives ho hchained.derives
      · simpa [Stmt.exprs, Stmt.stmts] using ((hfirst hord).before [o]).append (hchained.seated hord)
    | leftBrace =>
      refine (ih.block ctx u).call fun ws otherwise _ hotherwise u => ?_
      refine readsAt_spanned rfl fun s hs =>
        .stmt_of_over ?_ ⟨hc.legal, hbody.legal, hotherwise.legal⟩ hs fun hord => ?_
      · simpa using Derives.branchElse hk hc.derives hbody.derives ho hotherwise.derives
      · simpa [Stmt.exprs, Stmt.stmts] using ((hfirst hord).before [o]).append (hotherwise.seated hord)
    | _ => exact readsAt_refuse
  · exact readsAt_spanned rfl fun s hs =>
      .stmt_of_over (.branch hk hc.derives hbody.derives) ⟨hc.legal, hbody.legal⟩ hs hfirst

theorem statement_succ (ih : StmtsSound known src fuel) (hknown : ∀ t ∈ src.rest, known t.kind t.text) (ctx : Context)
    (t : Token) : ReadsAt src [] t (Parser.statement ctx (fuel + 1)) (Statement known src ctx) := by
  have hexprs := exprsSound hknown ctx fuel
  unfold Parser.statement
  refine readsAt_traceStatement (readsAt_peek fun _ => ?_)
  cases hk : t.kind with
  | functionWord =>
    refine (ih.function ctx false t).bind ?_
    exact fun ts f hf u => readsAt_pure (hf.change .functionDef)
  | classWord =>
    refine readsAt_expect fun _ _ n => ?_
    refine readsAt_plainName.bind ?_
    rintro _ _ ⟨rfl, hmem, rfl, hn, hmay⟩ l
    refine readsAt_expect fun hl _ u => ?_
    refine (ih.methods ctx u).call fun us fs _ hfs r => ?_
    refine readsAt_expect fun hr _ u => ?_
    exact readsAt_spanned rfl fun s hs =>
      .stmt_of_over (.classDef hk hn hl hfs.derives hr) ⟨hmay, hn ▸ hknown n hmem, hfs.legal⟩ hs
      fun ho => ((hfs.seated ho).behind _).before _
  | ifWord => exact (ih.branch ctx t).imp fun ts s hs => hs.change .branchStmt
  | whileWord =>
    refine readsAt_expect fun _ _ u => ?_
    refine (hexprs.expr .or u).call fun us c _ hc u => ?_
    refine (ih.block _ u).call fun vs body _ hbody u => ?_
    exact readsAt_spanned rfl fun s hs => .stmt_of_over (.loop hk hc.derives hbody.derives) ⟨hc.legal, hbody.legal⟩ hs
      fun ho => ((hc.seated ho).behind [t]).append (hbody.seated ho)
  | returnWord => exact returnStmt_sound hexprs hk
  | printWord => exact printStmt_sound hexprs t
  | breakWord => exact loopControl_sound (.inl hk)
  | continueWord => exact loopControl_sound (.inr hk)
  | _ => exact simple_sound hexprs t

end StmtsSound

/-- So are all readers of statements. -/
theorem stmtsSound {known : Lexicon} {src : Cursor} (hknown : ∀ t ∈ src.rest, known t.kind t.text) (fuel : Nat) :
    StmtsSound known src fuel := by
  induction fuel with
  | zero => exact .zero
  | succ fuel ih => exact {
      statements := ih.statements_succ
      block := ih.block_succ
      statement := ih.statement_succ hknown
      function := ih.function_succ hknown
      methods := ih.methods_succ
      branch := ih.branch_succ hknown }

/-! ### Programs -/

theorem statements_stop {ctx : Context} {stop : Kind} {c c' : Cursor} {body : List Stmt}
    (h : statements ctx stop fuel c = .ok body c') : c'.token.kind = stop := by
  induction fuel generalizing c body with
  | zero => exact absurd h (by unfold statements; exact spend_ne_ok)
  | succ fuel ih =>
    simp only [statements, bind_eq_ok, peek_eq_ok] at h
    obtain ⟨_, _, -, _, _, ⟨rfl, rfl⟩, h⟩ := h
    split at h
    · rename_i hk
      obtain ⟨-, rfl⟩ := pure_eq_ok.mp h
      exact hk
    · split at h
      · exact absurd h refuse_ne_ok
      · simp only [bind_eq_ok, pure_eq_ok] at h
        obtain ⟨_, _, -, _, _, hss, -, rfl⟩ := h
        exact ih hss

theorem endBehind_kind (tokens : List Token) : (endBehind tokens).kind = .endOfInput := by
  unfold endBehind
  split
  · rfl
  · split
    · assumption
    · rfl

theorem rest_eq_nil {c : Cursor} (hne : ∀ t ∈ c.rest, t.kind ≠ .endOfInput)
    (hk : c.token.kind = .endOfInput) : c.rest = [] := by
  cases hr : c.rest with
  | nil => rfl
  | cons t rest =>
    have ht : c.token = t := by simp [Cursor.token, hr]
    exact absurd (ht ▸ hk) (hne t (by simp [hr]))

theorem kind_of_mem_input {t : Token}
    (h : t ∈ tokens.takeWhile (·.kind != .endOfInput)) : t.kind ≠ .endOfInput := by
  simpa using List.all_eq_true.mp List.all_takeWhile t h

theorem input_append {init : List Token} {last : Token} (hinit : ∀ t ∈ init, t.kind ≠ .endOfInput)
    (hlast : last.kind = .endOfInput) : (init ++ [last]).takeWhile (·.kind != .endOfInput) = init := by
  rw [List.takeWhile_append_of_pos (by simpa using hinit)]
  simp [hlast]

/-- The statements of a program are read from the start of the input, and its span is made of them. -/
theorem parse_eq_ok (h : parse tokens = .ok p) :
    ∃ c, statements Context.top .endOfInput (fuelFor tokens) (Cursor.ofTokens tokens) = .ok p.body c ∧
      p.span = programSpan (Cursor.ofTokens tokens).token p.body := by
  unfold parse run at h
  cases hrun : program (fuelFor tokens) (Cursor.ofTokens tokens) with
  | refused r trace => simp [hrun, Reply.result] at h
  | spent => simp [hrun, Reply.result] at h
  | ok q c =>
    simp only [hrun, Reply.result, Except.ok.injEq] at h
    subst h
    simp only [program, bind_eq_ok, peek_eq_ok, pure_eq_ok] at hrun
    obtain ⟨_, _, ⟨rfl, rfl⟩, body, c₁, hbody, rfl, rfl⟩ := hrun
    exact ⟨c₁, hbody, rfl⟩

theorem behind_ofTokens (tokens : List Token) : (Cursor.ofTokens tokens).Behind (Cursor.ofTokens tokens) [] :=
  ⟨endBehind_kind tokens, rfl, by simp, List.suffix_refl _⟩

theorem readsAt_program (known : Lexicon) (hknown : ∀ t ∈ tokens, known t.kind t.text)
    (stop : Kind) (fuel : Nat) (t : Token) :
    ReadsAt (Cursor.ofTokens tokens) [] t (statements Context.top stop fuel) fun ts body =>
      Sound known (Cursor.ofTokens tokens) (.statements body) (stmtsLegal known Context.top body) (body.map .stmt) ts :=
  (stmtsSound (fun t ht => hknown t (List.takeWhile_subset _ ht)) fuel).statements _ _ _

/-- A program that is read is derived from its tokens, is legal and sits on them. -/
theorem parse_reads (known : Lexicon)
    (hknown : ∀ t ∈ tokens, known t.kind t.text) (h : parse tokens = .ok p) :
    Sound known (Cursor.ofTokens tokens) (.statements p.body) (stmtsLegal known Context.top p.body)
      (p.body.map .stmt) (tokens.takeWhile (·.kind != .endOfInput)) := by
  obtain ⟨c, hbody, -⟩ := parse_eq_ok h
  obtain ⟨used, hm, hsound⟩ := (readsAt_program known hknown _ _ _ _ (behind_ofTokens tokens) rfl).1 _ _ hbody
  have hrest : tokens.takeWhile (·.kind != .endOfInput) = used ++ c.rest := hm.rest
  have hnil : c.rest = [] := by
    refine rest_eq_nil (fun t ht => ?_) (statements_stop hbody)
    have hmem : t ∈ tokens.takeWhile (·.kind != .endOfInput) := by
      rw [hrest]
      exact List.mem_append_right _ ht
    exact kind_of_mem_input hmem
  rw [hrest, hnil, List.append_nil]
  exact hsound

/-- The statements of a program are derived by all tokens in front of the first end of input, and they
are legal. -/
theorem parse_sound (known : Lexicon)
    (hknown : ∀ t ∈ tokens, known t.kind t.text) (h : parse tokens = .ok p) :
    Derives (.statements p.body) (tokens.takeWhile (·.kind != .endOfInput)) ∧
      stmtsLegal known Context.top p.body :=
  ⟨(parse_reads known hknown h).derives, (parse_reads known hknown h).legal⟩

theorem parse_seated (h : parse tokens = .ok p)
    (ho : InOrder (tokens.takeWhile (·.kind != .endOfInput))) (hne : p.body ≠ []) :
    ∃ core, core <:+: tokens.takeWhile (·.kind != .endOfInput) ∧
      (TreeNode.program p).Sits (Whole fun _ _ => True) core := by
  obtain ⟨_, -, hspan⟩ := parse_eq_ok h
  exact ((parse_reads _ (fun _ _ => trivial) h).seated ho).program hne hspan

/-- The program that tokens make is derived from the grammar by exactly the tokens in front of the
first end of input. -/
theorem program_derives {tokens : List Token} {p : Program} (h : parse tokens = .ok p) :
    Derives (.program p) (tokens.takeWhile (·.kind != .endOfInput)) :=
  .program (parse_sound (fun _ _ => True) (fun _ _ => trivial) h).1

/-- The tokens of `x = (1 - 2) - 3 ;`, and one more behind their end of input. -/
theorem program_derives_subtraction :
    ∃ p, Derives (.program p) [⟨⟨.identifier, "x", .none⟩, []⟩, ⟨⟨.assign, "=", .none⟩, []⟩,
      ⟨⟨.leftParen, "(", .none⟩, []⟩, ⟨⟨.number, "1", .none⟩, []⟩, ⟨⟨.minus, "-", .none⟩, []⟩,
      ⟨⟨.number, "2", .none⟩, []⟩, ⟨⟨.rightParen, ")", .none⟩, []⟩, ⟨⟨.minus, "-", .none⟩, []⟩,
      ⟨⟨.number, "3", .none⟩, []⟩, ⟨⟨.semicolon, ";", .none⟩, []⟩] ∧
      p.body = [.assign .none (.name .none "x") (.binary .none .minus
        (.binary .none .minus (.literal .none (.number "1")) (.literal .none (.number "2")))
        (.literal .none (.number "3")))] :=
  ⟨⟨.none, _⟩, @program_derives [⟨⟨.identifier, "x", .none⟩, []⟩,
    ⟨⟨.assign, "=", .none⟩, []⟩, ⟨⟨.leftParen, "(", .none⟩, []⟩, ⟨⟨.number, "1", .none⟩, []⟩,
    ⟨⟨.minus, "-", .none⟩, []⟩, ⟨⟨.number, "2", .none⟩, []⟩, ⟨⟨.rightParen, ")", .none⟩, []⟩,
    ⟨⟨.minus, "-", .none⟩, []⟩, ⟨⟨.number, "3", .none⟩, []⟩, ⟨⟨.semicolon, ";", .none⟩, []⟩,
    ⟨⟨.endOfInput, [], .none⟩, []⟩, ⟨⟨.breakWord, "kır", .none⟩, []⟩] _ rfl, rfl⟩

end Parser

end Anadil
