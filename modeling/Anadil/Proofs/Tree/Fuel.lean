import Anadil.Proofs.Tree.ExprCompleteness

/-! # The fuel lasts

No reading runs out of fuel. A reader calls another one at one less than its own fuel, and every sixteen
calls that stand inside each other have a token between them, so sixteen for each token to come, and a
little more for the calls before the first, is enough. -/

namespace Anadil

namespace Parser

variable {c : Cursor}

/-- Behind the tokens to come stands one that ends the input. -/
def Cursor.Closed (c : Cursor) : Prop := c.finish.kind = .endOfInput

/-- The fuel has lasted, and behind what was read there are fewer than `n` tokens. -/
def Reply.Leaves {α : Type} (n : Nat) : Reply α → Prop
  | .ok _ c => c.Closed ∧ c.rest.length < n
  | .refused _ _ => True
  | .spent => False

/-- For a reader the fuel lasts if there is sixteen of it for each token to come and `base` besides. Of those tokens it
leaves fewer than there are and `extra` more. -/
def Lasts {α : Type} (fuel base extra : Nat) (r : Reader α) : Prop :=
  ∀ c : Cursor, c.Closed → 16 * c.rest.length + base ≤ fuel → (r c).Leaves (c.rest.length + extra)

section Rules
variable {α β : Type} {m n : Nat}

theorem Reply.Leaves.mono {reply : Reply α} (h : reply.Leaves m) (hmn : m ≤ n) : reply.Leaves n := by
  cases reply with
  | ok a d => exact ⟨h.1, Nat.lt_of_lt_of_le h.2 hmn⟩
  | refused r log => trivial
  | spent => exact h

theorem leaves_bind {r : Reader α} {k : α → Reader β} (hr : (r c).Leaves m)
    (hk : ∀ a d, d.Closed → d.rest.length < m → (k a d).Leaves n) :
    ((r >>= k) c).Leaves n := by
  simp only [Bind.bind, Reader.bind]
  cases h : r c with
  | ok a d =>
    rw [h] at hr
    exact hk a d hr.1 hr.2
  | refused e log => trivial
  | spent =>
    rw [h] at hr
    exact hr

theorem leaves_pure {a : α} (hc : c.Closed) (hn : c.rest.length < n) :
    ((pure a : Reader α) c).Leaves n := ⟨hc, hn⟩

theorem leaves_refuse {expected : List Text} : ((refuse expected : Reader α) c).Leaves n := trivial

end Rules

/-! ### Single tokens -/

theorem leaves_advance (hc : c.Closed) (hk : c.token.kind ≠ .endOfInput) :
    c.advance.Closed ∧ c.advance.rest.length < c.rest.length := by
  have hp := Cursor.Passes.advance hc hk
  have hlength : c.rest.length = c.advance.rest.length + 1 := by rw [hp.rest]; simp
  exact ⟨by rw [Cursor.Closed, hp.finish]; exact hc, by omega⟩

section Tokens
variable (hc : c.Closed)
include hc

theorem leaves_expect {kind : Kind} (hne : kind ≠ .endOfInput := by decide) :
    (expect kind c).Leaves c.rest.length := by
  simp only [expect, peek_bind]
  split
  · rename_i hk
    exact leaves_advance hc (hk ▸ hne)
  · exact leaves_refuse

theorem leaves_closeList : (closeList c).Leaves c.rest.length := by
  simp only [closeList, peek_bind]
  split
  · rename_i hk
    exact leaves_advance hc (by rw [hk]; decide)
  · exact leaves_refuse

theorem leaves_spanFrom {n : Nat} (start : Token) (hn : c.rest.length < n) :
    (spanFrom start c).Leaves n := ⟨hc, hn⟩

theorem leaves_spanned {α : Type} {n : Nat} {f : Span → α} (start : Token) (hn : c.rest.length < n) :
    ((spanFrom start >>= fun span => pure (f span)) c).Leaves n := ⟨hc, hn⟩

theorem leaves_skipSemicolons : (skipSemicolons c).Leaves (c.rest.length + 1) := by
  refine ⟨hc, Nat.lt_succ_of_le ?_⟩
  exact (List.dropWhile_sublist _).length_le

theorem leaves_memberName : (memberName c).Leaves c.rest.length := by
  refine leaves_bind (leaves_expect hc) fun t d hd hlt => ?_
  split
  · trivial
  · exact leaves_pure hd hlt

theorem leaves_plainName (ctx : Context) : (plainName ctx c).Leaves c.rest.length := by
  refine leaves_bind (leaves_memberName hc) fun t d hd hlt => ?_
  split
  · trivial
  · split
    · trivial
    · exact leaves_pure hd hlt

end Tokens

/-- A list of parameters takes no more steps than there are tokens. -/
theorem leaves_parameters (ctx : Context) (fuel : Nat) (seen : List Text)
    (hc : c.Closed) (hfuel : c.rest.length < fuel) : (parameters ctx fuel seen c).Leaves c.rest.length := by
  induction fuel generalizing seen c with
  | zero => omega
  | succ fuel ih =>
    refine leaves_bind (leaves_plainName hc ctx) fun t d hd hlt => ?_
    split
    · trivial
    · rw [peek_bind]
      split
      · rename_i hk
        obtain ⟨hd', hlt'⟩ := leaves_advance hd (by rw [hk]; decide)
        rw [advance_bind]
        refine leaves_bind (ih _ hd' (by omega)) fun names e he hlt'' => ?_
        exact leaves_pure he (by omega)
      · exact leaves_pure hd hlt

/-! ### Expressions -/

/-- How much fuel each reader of expressions needs. Those that start with an expression pass a token at
least. -/
structure ExprsLast (ctx : Context) (fuel : Nat) : Prop where
  expr : ∀ level, Lasts (fuel + level.rank) 9 0 (expr ctx fuel level)
  chain : ∀ level start left, Lasts fuel 1 1 (chain ctx fuel level start left)
  trail : ∀ start x, Lasts fuel 1 1 (trail ctx fuel start x)
  arguments : Lasts fuel 11 1 (arguments ctx fuel)
  expressions : Lasts fuel 10 0 (expressions ctx fuel)
  primary : Lasts fuel 1 0 (primary ctx fuel)

namespace ExprsLast
variable {ctx : Context} {fuel : Nat}

theorem zero : ExprsLast ctx 0 where
  expr level c _ h := by have := level.rank_le; omega
  chain _ _ _ _ _ h := by omega
  trail _ _ _ _ h := by omega
  arguments _ _ h := by omega
  expressions _ _ h := by omega
  primary _ _ h := by omega

variable (ih : ExprsLast ctx fuel)
include ih

theorem expr_succ (level : Level) : Lasts (fuel + 1 + level.rank) 9 0 (Parser.expr ctx (fuel + 1) level) := by
  intro c hc hfuel
  have hrank := level.rank_le
  by_cases hlevel : level = .access
  · subst hlevel
    simp only [Level.rank] at hfuel
    simp only [Parser.expr, peek_bind]
    refine leaves_bind (ih.primary c hc (by omega)) fun x d hd hlt => ?_
    exact (ih.trail _ x d hd (by omega)).mono hlt
  · rw [expr_of_ne_access hlevel, peek_bind]
    split
    · rename_i hk
      obtain ⟨hd, hlt⟩ := leaves_advance hc (Level.leading_of_mem_leading _ hk).2
      rw [advance_bind]
      refine leaves_bind (ih.expr level _ hd (by omega)) fun x d hd hlt' => ?_
      exact leaves_spanned hd _ (by omega)
    · have hrank' := level.tighter.rank_le
      have htighter := Level.rank_tighter hlevel
      refine leaves_bind (ih.expr level.tighter c hc (by omega)) fun x d hd hlt => ?_
      exact (ih.chain level _ x d hd (by omega)).mono hlt

theorem chain_succ (level : Level) (start : Token) (left : Expr) :
    Lasts (fuel + 1) 1 1 (Parser.chain ctx (fuel + 1) level start left) := by
  intro c hc hfuel
  simp only [Parser.chain, peek_bind]
  split
  · rename_i hk
    obtain ⟨hd, hlt⟩ := leaves_advance hc (Level.joining_of_mem_operators _ hk).2
    rw [advance_bind]
    refine leaves_bind (ih.expr level.tighter _ hd (by omega)) fun right d hd hlt' => ?_
    refine leaves_bind (leaves_spanFrom hd start hlt') fun span d hd hlt' => ?_
    exact (ih.chain level start _ d hd (by omega)).mono (by omega)
  · exact leaves_pure hc (Nat.lt_succ_self _)

theorem trail_succ (start : Token) (x : Expr) : Lasts (fuel + 1) 1 1 (Parser.trail ctx (fuel + 1) start x) := by
  intro c hc hfuel
  simp only [Parser.trail, peek_bind]
  cases hk : c.token.kind with
  | leftParen =>
    dsimp only
    split
    · obtain ⟨hd, hlt⟩ := leaves_advance hc (by rw [hk]; decide)
      rw [advance_bind]
      refine leaves_bind (ih.arguments _ hd (by omega)) fun args d hd hlt' => ?_
      refine leaves_bind (leaves_closeList hd) fun _ d hd hlt'' => ?_
      refine leaves_bind (leaves_spanFrom hd start hlt'') fun span d hd hlt'' => ?_
      exact (ih.trail start _ d hd (by omega)).mono (by omega)
    · exact leaves_refuse
  | dot =>
    obtain ⟨hd, hlt⟩ := leaves_advance hc (by rw [hk]; decide)
    simp only [advance_bind]
    refine leaves_bind (leaves_memberName hd) fun name d hd hlt' => ?_
    refine leaves_bind (leaves_spanFrom hd start hlt') fun span d hd hlt' => ?_
    exact (ih.trail start _ d hd (by omega)).mono (by omega)
  | _ => exact leaves_pure hc (Nat.lt_succ_self _)

theorem arguments_succ : Lasts (fuel + 1) 11 1 (Parser.arguments ctx (fuel + 1)) := by
  intro c hc hfuel
  simp only [Parser.arguments, peek_bind]
  split
  · exact leaves_pure hc (Nat.lt_succ_self _)
  · exact (ih.expressions c hc (by omega)).mono (Nat.le_succ _)

theorem expressions_succ : Lasts (fuel + 1) 10 0 (Parser.expressions ctx (fuel + 1)) := by
  intro c hc hfuel
  simp only [Parser.expressions]
  refine leaves_bind (ih.expr .or c hc (by simp only [Level.rank]; omega)) fun x d hd hlt => ?_
  rw [peek_bind]
  split
  · rename_i hk
    obtain ⟨hd', hlt'⟩ := leaves_advance hd (by rw [hk]; decide)
    rw [advance_bind]
    refine leaves_bind (ih.expressions _ hd' (by omega)) fun xs d hd hlt'' => ?_
    exact leaves_pure hd (by omega)
  · exact leaves_pure hd hlt

theorem primary_succ : Lasts (fuel + 1) 1 0 (Parser.primary ctx (fuel + 1)) := by
  intro c hc hfuel
  have htoken : ∀ {x : Expr} {kind : Kind}, c.token.kind = kind → kind ≠ .endOfInput →
      ((do let _ ← advance; return x : Reader Expr) c).Leaves c.rest.length :=
    fun hk hne => leaves_advance hc (hk ▸ hne)
  simp only [Parser.primary, peek_bind]
  cases hk : c.token.kind with
  | number | string | trueWord | falseWord | nullWord => exact htoken hk (by decide)
  | thisWord =>
    dsimp only
    split
    · exact htoken hk (by decide)
    · trivial
  | identifier =>
    exact leaves_bind (leaves_plainName hc ctx) fun _ d hd hlt => leaves_pure hd hlt
  | leftParen =>
    obtain ⟨hd, hlt⟩ := leaves_advance hc (by rw [hk]; decide)
    simp only [advance_bind]
    refine leaves_bind (ih.expr .or _ hd (by omega)) fun x d hd hlt' => ?_
    refine leaves_bind (leaves_expect hd) fun _ d hd hlt'' => ?_
    exact leaves_pure hd (by omega)
  | _ => exact leaves_refuse

end ExprsLast

theorem exprsLast (ctx : Context) (fuel : Nat) : ExprsLast ctx fuel := by
  induction fuel with
  | zero => exact .zero
  | succ fuel ih =>
    exact ⟨ih.expr_succ, ih.chain_succ, ih.trail_succ, ih.arguments_succ, ih.expressions_succ, ih.primary_succ⟩

/-- An expression of the loosest level, which is where most readers start. -/
theorem lasts_expr (ctx : Context) (fuel : Nat) : Lasts fuel 9 0 (expr ctx fuel .or) := (exprsLast ctx fuel).expr .or

/-! ### Statements -/

section Simple
variable (ctx : Context) (fuel : Nat)

theorem lasts_simple : Lasts fuel 9 0 (simple ctx fuel) := by
  intro c hc hfuel
  simp only [simple, peek_bind]
  refine leaves_bind (lasts_expr ctx fuel c hc hfuel) fun x d hd hlt => ?_
  rw [peek_bind]
  split
  · rename_i hk
    split
    · obtain ⟨hd', hlt'⟩ := leaves_advance hd (by rw [hk]; decide)
      rw [advance_bind]
      refine leaves_bind (lasts_expr ctx fuel _ hd' (by omega)) fun value d hd hlt'' => ?_
      exact leaves_spanned hd _ (by omega)
    · trivial
  · exact leaves_spanned hd _ hlt

theorem leaves_returnStmt (hc : c.Closed) (hk : c.token.kind ≠ .endOfInput)
    (hfuel : 16 * c.rest.length + 9 ≤ fuel) : (returnStmt ctx fuel c).Leaves c.rest.length := by
  simp only [returnStmt, peek_bind]
  split
  · obtain ⟨hd, hlt⟩ := leaves_advance hc hk
    rw [advance_bind, peek_bind]
    split
    · exact leaves_spanned hd _ hlt
    · refine leaves_bind (lasts_expr ctx fuel _ hd (by omega)) fun value d hd hlt' => ?_
      exact leaves_spanned hd _ (by omega)
  · trivial

theorem lasts_printStmt : Lasts fuel 9 0 (printStmt ctx fuel) := by
  intro c hc hfuel
  refine leaves_bind (leaves_expect hc) fun start d hd h₁ => ?_
  refine leaves_bind (leaves_expect hd) fun _ d hd h₂ => ?_
  refine leaves_bind (lasts_expr ctx fuel _ hd (by omega)) fun value d hd h₃ => ?_
  refine leaves_bind (leaves_expect hd) fun _ d hd h₄ => ?_
  exact leaves_spanned hd start (by omega)

theorem leaves_loopControl (hc : c.Closed) (hk : c.token.kind ≠ .endOfInput) :
    (loopControl ctx c).Leaves c.rest.length := by
  simp only [loopControl, peek_bind]
  split
  · exact leaves_advance hc hk
  · trivial

end Simple

/-- How much fuel each reader of statements needs. -/
structure StmtsLast (fuel : Nat) : Prop where
  statements : ∀ ctx stop, Lasts fuel 11 1 (statements ctx stop fuel)
  block : ∀ ctx, Lasts fuel 1 0 (block ctx fuel)
  statement : ∀ ctx, Lasts fuel 10 0 (statement ctx fuel)
  function : ∀ ctx isMethod, Lasts fuel 1 0 (function ctx isMethod fuel)
  methods : ∀ ctx, Lasts fuel 2 1 (methods ctx fuel)
  branch : ∀ ctx, Lasts fuel 1 0 (branch ctx fuel)

namespace StmtsLast
variable {fuel : Nat}

theorem zero : StmtsLast 0 where
  statements _ _ _ _ h := by omega
  block _ _ _ h := by omega
  statement _ _ _ h := by omega
  function _ _ _ _ h := by omega
  methods _ _ _ h := by omega
  branch _ _ _ h := by omega

variable (ih : StmtsLast fuel) (ctx : Context)
include ih

theorem statements_succ (stop : Kind) : Lasts (fuel + 1) 11 1 (Parser.statements ctx stop (fuel + 1)) := by
  intro c hc hfuel
  simp only [Parser.statements]
  refine leaves_bind (leaves_skipSemicolons hc) fun _ d hd hle => ?_
  rw [peek_bind]
  split
  · exact leaves_pure hd hle
  · split
    · exact leaves_refuse
    · refine leaves_bind (ih.statement ctx d hd (by omega)) fun s e he hlt => ?_
      refine leaves_bind (ih.statements ctx stop e he (by omega)) fun ss e he hlt' => ?_
      exact leaves_pure he (by omega)

theorem block_succ : Lasts (fuel + 1) 1 0 (Parser.block ctx (fuel + 1)) := by
  intro c hc hfuel
  simp only [Parser.block]
  refine leaves_bind (leaves_expect hc) fun _ d hd h₁ => ?_
  refine leaves_bind (ih.statements ctx _ d hd (by omega)) fun ss d hd h₂ => ?_
  refine leaves_bind (leaves_expect hd) fun _ d hd h₃ => ?_
  exact leaves_pure hd (by omega)

theorem function_succ (isMethod : Bool) : Lasts (fuel + 1) 1 0 (Parser.function ctx isMethod (fuel + 1)) := by
  intro c hc hfuel
  -- what comes behind the parameters, the same for none and for some
  have hbehind : ∀ (start : Token) (name : Text) (params : List Text) (d : Cursor),
      d.Closed → d.rest.length < c.rest.length →
      ((do
        closeList
        let body ← Parser.block (ctx.function isMethod) fuel
        return ⟨← spanFrom start, name, params, body⟩ : Reader (Function Stmt)) d).Leaves
          c.rest.length := by
    intro start name params d hd h₁
    refine leaves_bind (leaves_closeList hd) fun _ d hd h₂ => ?_
    refine leaves_bind (ih.block _ d hd (by omega)) fun ss d hd h₃ => ?_
    exact leaves_spanned hd start (by omega)
  simp only [Parser.function]
  refine leaves_bind (leaves_expect hc) fun start d hd h₁ => ?_
  refine leaves_bind (leaves_plainName hd ctx) fun name d hd h₂ => ?_
  refine leaves_bind (leaves_expect hd) fun _ d hd h₃ => ?_
  rw [peek_bind]
  split
  · exact hbehind start name.text [] d hd (by omega)
  · refine leaves_bind (leaves_parameters ctx fuel _ hd (by omega)) fun params d hd h₄ => ?_
    exact hbehind start name.text params d hd (by omega)

theorem methods_succ : Lasts (fuel + 1) 2 1 (Parser.methods ctx (fuel + 1)) := by
  intro c hc hfuel
  simp only [Parser.methods]
  refine leaves_bind (leaves_skipSemicolons hc) fun _ d hd hle => ?_
  rw [peek_bind]
  split
  · exact leaves_pure hd hle
  · split
    · refine leaves_bind (ih.function ctx true d hd (by omega)) fun f e he hlt => ?_
      refine leaves_bind (ih.methods ctx e he (by omega)) fun fs e he hlt' => ?_
      exact leaves_pure he (by omega)
    · exact leaves_refuse

theorem branch_succ : Lasts (fuel + 1) 1 0 (Parser.branch ctx (fuel + 1)) := by
  intro c hc hfuel
  simp only [Parser.branch]
  refine leaves_bind (leaves_expect hc) fun start d hd h₁ => ?_
  refine leaves_bind (lasts_expr ctx fuel _ hd (by omega)) fun cond d hd h₂ => ?_
  refine leaves_bind (ih.block ctx d hd (by omega)) fun body d hd h₃ => ?_
  rw [peek_bind]
  split
  · rename_i ho
    obtain ⟨hd', h₄⟩ := leaves_advance hd (by rw [ho]; decide)
    rw [advance_bind, peek_bind]
    cases d.advance.token.kind with
    | ifWord =>
      refine leaves_bind (ih.branch ctx _ hd' (by omega)) fun chained d hd h₅ => ?_
      exact leaves_spanned hd start (by omega)
    | leftBrace =>
      refine leaves_bind (ih.block ctx _ hd' (by omega)) fun otherwise d hd h₅ => ?_
      exact leaves_spanned hd start (by omega)
    | _ => exact leaves_refuse
  · exact leaves_spanned hd start (by omega)

theorem statement_succ : Lasts (fuel + 1) 10 0 (Parser.statement ctx (fuel + 1)) := by
  intro c hc hfuel
  have htrace : (traceStatement c).Leaves (c.rest.length + 1) := ⟨hc, Nat.lt_succ_self _⟩
  simp only [Parser.statement]
  refine leaves_bind htrace fun _ d hd hle => ?_
  have hle : d.rest.length ≤ c.rest.length := Nat.le_of_lt_succ hle
  refine Reply.Leaves.mono ?_ hle
  rw [peek_bind]
  cases hk : d.token.kind with
  | functionWord =>
    exact leaves_bind (ih.function ctx false d hd (by omega)) fun f e he hlt => leaves_pure he hlt
  | classWord =>
    refine leaves_bind (leaves_expect hd) fun start d hd h₁ => ?_
    refine leaves_bind (leaves_plainName hd ctx) fun name d hd h₂ => ?_
    refine leaves_bind (leaves_expect hd) fun _ d hd h₃ => ?_
    refine leaves_bind (ih.methods ctx d hd (by omega)) fun fs d hd h₄ => ?_
    refine leaves_bind (leaves_expect hd) fun _ d hd h₅ => ?_
    exact leaves_spanned hd start (by omega)
  | ifWord => exact ih.branch ctx d hd (by omega)
  | whileWord =>
    refine leaves_bind (leaves_expect hd) fun start d hd h₁ => ?_
    refine leaves_bind (lasts_expr ctx fuel _ hd (by omega)) fun cond d hd h₂ => ?_
    refine leaves_bind (ih.block ctx.loop d hd (by omega)) fun body d hd h₃ => ?_
    exact leaves_spanned hd start (by omega)
  | returnWord => exact leaves_returnStmt ctx fuel hd (by rw [hk]; decide) (by omega)
  | printWord => exact lasts_printStmt ctx fuel d hd (by omega)
  | breakWord | continueWord => exact leaves_loopControl ctx hd (by rw [hk]; decide)
  | _ => exact lasts_simple ctx fuel d hd (by omega)

end StmtsLast

theorem stmtsLast (fuel : Nat) : StmtsLast fuel := by
  induction fuel with
  | zero => exact .zero
  | succ fuel ih =>
    exact ⟨ih.statements_succ, ih.block_succ, ih.statement_succ, ih.function_succ, ih.methods_succ, ih.branch_succ⟩

/-- A program is read or refused, whatever the tokens: the fuel does not run out. -/
theorem parse_ne_spent (tokens : List Token) : parse tokens ≠ .error .spent := by
  have hc : (Cursor.ofTokens tokens).Closed := endBehind_kind tokens
  have hlength : (Cursor.ofTokens tokens).rest.length ≤ tokens.length :=
    (List.takeWhile_sublist _).length_le
  have hbody := (stmtsLast (fuelFor tokens)).statements Context.top .endOfInput _ hc
    (by unfold fuelFor; omega)
  have hleaves : (run tokens).Leaves ((Cursor.ofTokens tokens).rest.length + 1) := by
    rw [run, program, peek_bind]
    exact leaves_bind hbody fun body d hd hlt => leaves_pure hd hlt
  intro h
  unfold parse at h
  cases hrun : run tokens with
  | spent => rwa [hrun] at hleaves
  | ok p d => simp [hrun, Reply.result] at h
  | refused r log => simp [hrun, Reply.result] at h

end Parser

end Anadil
