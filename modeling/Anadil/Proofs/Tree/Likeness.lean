import Anadil.Proofs.Tree.Reading
import Anadil.Proofs.Tree.Retold
import Anadil.Proofs.Tree.Words

/-! # The same words twice

No reader looks at the place of a token, it only hands it on: from tokens that say the same words and look the same
in a view, every reader gives trees that look the same, or refuses with the same complaint at places that do. -/

namespace Anadil

variable {start start' : Token}

/-- What a token says, and what counts of its place. -/
def Token.sight (v : View) (t : Token) : Word × Span := (t.word, v.span t.span)

namespace Parser

/-- Cursors in front of tokens that look the same. -/
structure Cursor.Like (v : View) (c c' : Cursor) : Prop where
  rest : c.rest.map (Token.sight v) = c'.rest.map (Token.sight v)
  finish : c.finish.sight v = c'.finish.sight v

/-- Refusals with the same complaint at places that look the same. -/
structure Refusal.Like (v : View) (r r' : Refusal) : Prop where
  expected : r.expected = r'.expected
  found : r.found = r'.found
  place : v.see r.line r.column = v.see r'.line r'.column

/-- Replies that look the same, where `f` says what of a value counts. -/
def Reply.Like {α β : Type} (v : View) (f : α → β) : Reply α → Reply α → Prop
  | .ok a c, .ok a' c' => f a = f a' ∧ c.Like v c'
  | .refused r _, .refused r' _ => r.Like v r'
  | .spent, .spent => True
  | _, _ => False

/-- Readers that give such replies in front of tokens that look the same. -/
def Like {α β : Type} (v : View) (f : α → β) (r r' : Reader α) : Prop :=
  ∀ c c' : Cursor, c.Like v c' → (r c).Like v f (r' c')

/-- A reader that gives such replies itself. -/
def Steady {α β : Type} (v : View) (f : α → β) (r : Reader α) : Prop := Like v f r r

section Rules
variable {α β γ δ : Type} {v : View} {f : α → γ} {g : β → δ} {r r' : Reader α} {k k' : α → Reader β}

theorem Like.bind (h : Like v f r r') (hk : ∀ a a', f a = f a' → Like v g (k a) (k' a')) :
    Like v g (r >>= k) (r' >>= k') := by
  intro c c' hc
  have hr := h c c' hc
  simp only [Bind.bind, Reader.bind]
  cases hrc : r c with
  | ok a d =>
    cases hrc' : r' c' with
    | ok a' d' =>
      rw [hrc, hrc'] at hr
      exact hk a a' hr.1 d d' hr.2
    | _ => simp only [hrc, hrc', Reply.Like] at hr
  | refused e log =>
    cases hrc' : r' c' with
    | refused e' log' =>
      rw [hrc, hrc'] at hr
      exact hr
    | _ => simp only [hrc, hrc', Reply.Like] at hr
  | spent =>
    cases hrc' : r' c' with
    | spent => exact trivial
    | _ => simp only [hrc, hrc', Reply.Like] at hr

theorem Like.pure {a a' : α} (h : f a = f a') : Like v f (pure a) (pure a') :=
  fun _ _ hc => ⟨h, hc⟩

theorem Like.ite {p : Prop} [Decidable p] {s s' : Reader α} (hr : p → Like v f r r')
    (hs : ¬p → Like v f s s') : Like v f (if p then r else s) (if p then r' else s') := by
  by_cases h : p
  · rw [if_pos h, if_pos h]
    exact hr h
  · rw [if_neg h, if_neg h]
    exact hs h

theorem like_spend : Steady v f spend := fun _ _ _ => trivial

end Rules

/-! ### Single tokens -/

section Tokens
variable {α β : Type} {v : View} {f : α → β} {t t' : Token} {c c' : Cursor}

theorem kind_eq (h : t.sight v = t'.sight v) : t.kind = t'.kind := congrArg (·.1.1) h

theorem text_eq (h : t.sight v = t'.sight v) : t.text = t'.text := congrArg (·.1.2) h

theorem span_eq (h : t.sight v = t'.sight v) : v.span t.span = v.span t'.span := congrArg (·.2) h

theorem describe_eq (h : t.sight v = t'.sight v) : t.describe = t'.describe := by
  simp only [Lexeme.describe, kind_eq h, text_eq h]

theorem Cursor.Like.token (h : c.Like v c') : c.token.sight v = c'.token.sight v := by
  have hsight : ∀ d : Cursor, d.token.sight v = (d.rest.map (Token.sight v)).head?.getD (d.finish.sight v) := by
    intro d
    rw [Cursor.token, List.head?_map]
    cases d.rest.head? <;> rfl
  rw [hsight, hsight, h.rest, h.finish]

theorem Cursor.Like.advance (h : c.Like v c') : c.advance.Like v c'.advance := by
  have hrest := h.rest
  unfold Cursor.advance
  cases hc : c.rest with
  | nil =>
    cases hc' : c'.rest with
    | nil => exact h
    | cons t' rest' => simp [hc, hc'] at hrest
  | cons t rest =>
    cases hc' : c'.rest with
    | nil => simp [hc, hc'] at hrest
    | cons t' rest' =>
      rw [hc, hc', List.map_cons, List.map_cons, List.cons.injEq] at hrest
      exact ⟨hrest.2, h.finish⟩

theorem like_peek : Steady v (Token.sight v) peek := fun _ _ h => ⟨h.token, h⟩

theorem like_advance : Steady v (Token.sight v) advance := fun _ _ h => ⟨h.token, h.advance⟩

theorem like_refuseAt (h : t.sight v = t'.sight v) (expected : List Text) (found : Text) :
    Like v f (refuseAt t expected found) (refuseAt t' expected found) := fun _ _ _ => ⟨rfl, rfl, span_eq h⟩

theorem like_refuse (expected : List Text) : Steady v f (refuse expected) := by
  refine like_peek.bind fun t t' ht => ?_
  rw [describe_eq ht]
  exact like_refuseAt ht expected _

theorem like_expect (kind : Kind) : Steady v (Token.sight v) (expect kind) := by
  refine like_peek.bind fun t t' ht => ?_
  rw [kind_eq ht]
  exact .ite (fun _ => like_advance) fun _ => like_refuse _

theorem like_closeList : Steady v id closeList := by
  refine like_peek.bind fun t t' ht => ?_
  rw [kind_eq ht]
  exact .ite (fun _ => like_advance.bind fun _ _ _ => .pure rfl) fun _ => like_refuse _

/-- What a span ends with does not count. -/
theorem like_spanFrom (h : t.sight v = t'.sight v) : Like v v.span (spanFrom t) (spanFrom t') :=
  fun _ _ hc => ⟨span_eq h, hc⟩

theorem like_traceStatement : Steady v id traceStatement := fun _ _ h => ⟨rfl, h.1, h.2⟩

theorem like_skipSemicolons : Steady v id skipSemicolons := by
  intro c c' h
  refine ⟨rfl, ?_, h.finish⟩
  have hdrop : ∀ ts : List Token, (ts.dropWhile (·.kind == .semicolon)).map (Token.sight v) =
      (ts.map (Token.sight v)).dropWhile (·.1.1 == .semicolon) := fun ts => by
    rw [List.dropWhile_map]
    rfl
  rw [hdrop, hdrop, h.rest]

theorem like_memberName : Steady v (Token.sight v) memberName := by
  refine (like_expect _).bind fun t t' ht => ?_
  rw [text_eq ht, describe_eq ht]
  exact .ite (fun _ => like_refuseAt ht _ _) fun _ => .pure ht

theorem like_plainName (ctx : Context) : Steady v (Token.sight v) (plainName ctx) := by
  refine like_memberName.bind fun t t' ht => ?_
  rw [text_eq ht, describe_eq ht]
  exact .ite (fun _ => like_refuseAt ht _ _) fun _ =>
    .ite (fun _ => like_refuseAt ht _ _) fun _ => .pure ht

theorem like_parameters (ctx : Context) (fuel : Nat) (seen : List Text) :
    Steady v id (parameters ctx fuel seen) := by
  induction fuel generalizing seen with
  | zero => exact like_spend
  | succ fuel ih =>
    refine (like_plainName ctx).bind fun t t' ht => ?_
    rw [text_eq ht, describe_eq ht]
    refine .ite (fun _ => like_refuseAt ht _ _) fun _ => like_peek.bind fun sep sep' hsep => ?_
    rw [kind_eq hsep]
    refine .ite (fun _ => like_advance.bind fun _ _ _ => (ih _).bind fun ns ns' hns => .pure ?_)
      fun _ => .pure rfl
    rw [show ns = ns' from hns]

end Tokens

/-! ### Expressions -/

/-- The readers of expressions at a fuel. -/
structure ExprsLike (v : View) (fuel : Nat) : Prop where
  expr (ctx : Context) (level : Level) : Steady v (Expr.retold v) (expr ctx fuel level)
  chain (ctx : Context) (level : Level) {start start' : Token} (h : start.sight v = start'.sight v) {x x' : Expr}
    (hx : x.retold v = x'.retold v) :
    Like v (Expr.retold v) (chain ctx fuel level start x) (chain ctx fuel level start' x')
  trail (ctx : Context) {start start' : Token} (h : start.sight v = start'.sight v) {x x' : Expr}
    (hx : x.retold v = x'.retold v) : Like v (Expr.retold v) (trail ctx fuel start x) (trail ctx fuel start' x')
  arguments (ctx : Context) : Steady v (exprsRetold v) (arguments ctx fuel)
  expressions (ctx : Context) : Steady v (exprsRetold v) (expressions ctx fuel)
  primary (ctx : Context) : Steady v (Expr.retold v) (primary ctx fuel)

section Expressions
variable {v : View} {fuel : Nat} (ih : ExprsLike v fuel)
include ih

theorem like_unary (ctx : Context) (level : Level) (h : start.sight v = start'.sight v) :
    Like v (Expr.retold v) (do
        let _ ← advance let operand ← Parser.expr ctx fuel level
        return .unary (← spanFrom start) start.kind operand) (do
        let _ ← advance let operand ← Parser.expr ctx fuel level
        return .unary (← spanFrom start') start'.kind operand) := by
  rw [kind_eq h]
  refine like_advance.bind fun _ _ _ => (ih.expr ctx level).bind fun x x' hx =>
    (like_spanFrom h).bind fun _ _ hspan => .pure ?_
  simp only [Expr.retold, hx, hspan]

theorem like_expr (ctx : Context) (level : Level) :
    Steady v (Expr.retold v) (Parser.expr ctx (fuel + 1) level) := by
  by_cases hlevel : level = .access
  · subst hlevel
    simp only [Parser.expr]
    exact like_peek.bind fun t t' ht => (ih.primary ctx).bind fun x x' hx => ih.trail ctx ht hx
  · rw [expr_of_ne_access hlevel]
    refine like_peek.bind fun t t' ht => ?_
    have hmem : (t.kind ∈ level.leading) = (t'.kind ∈ level.leading) := by rw [kind_eq ht]
    simp only [hmem]
    exact .ite (fun _ => like_unary ih ctx level ht) fun _ =>
      (ih.expr ctx level.tighter).bind fun x x' hx => ih.chain ctx level ht hx

/-- Chains of operators over sources that look alike give trees that look alike. -/
theorem like_chain (ctx : Context) (level : Level) (h : start.sight v = start'.sight v)
    {x x' : Expr} (hx : x.retold v = x'.retold v) :
    Like v (Expr.retold v) (Parser.chain ctx (fuel + 1) level start x)
      (Parser.chain ctx (fuel + 1) level start' x') := by
  simp only [Parser.chain]
  refine like_peek.bind fun op op' hop => ?_
  rw [kind_eq hop]
  refine .ite (fun _ => ?_) fun _ => .pure hx
  refine like_advance.bind fun _ _ _ => (ih.expr ctx level.tighter).bind fun y y' hy =>
    (like_spanFrom h).bind fun _ _ hspan => ih.chain ctx level h ?_
  simp only [Expr.retold, hx, hy, hspan]

/-- So do calls, fields and elements behind an expression. -/
theorem like_trail (ctx : Context) (h : start.sight v = start'.sight v) {x x' : Expr}
    (hx : x.retold v = x'.retold v) :
    Like v (Expr.retold v) (Parser.trail ctx (fuel + 1) start x) (Parser.trail ctx (fuel + 1) start' x') := by
  simp only [Parser.trail]
  refine like_peek.bind fun t t' ht => ?_
  rw [kind_eq ht, Expr.isPlace_congr hx]
  split
  · refine .ite (fun _ => ?_) fun _ => like_refuse _
    refine like_advance.bind fun _ _ _ => (ih.arguments ctx).bind fun args args' hargs =>
      like_closeList.bind fun _ _ _ => (like_spanFrom h).bind fun _ _ hspan => ih.trail ctx h ?_
    simp only [Expr.retold, hx, hargs, hspan]
  · refine like_advance.bind fun _ _ _ => like_memberName.bind fun name name' hname =>
      (like_spanFrom h).bind fun _ _ hspan => ih.trail ctx h ?_
    simp only [Expr.retold, hx, text_eq hname, hspan]
  · exact .pure hx

theorem like_arguments (ctx : Context) :
    Steady v (exprsRetold v) (Parser.arguments ctx (fuel + 1)) := by
  simp only [Parser.arguments]
  refine like_peek.bind fun t t' ht => ?_
  rw [kind_eq ht]
  exact .ite (fun _ => .pure rfl) fun _ => ih.expressions ctx

theorem like_expressions (ctx : Context) :
    Steady v (exprsRetold v) (Parser.expressions ctx (fuel + 1)) := by
  simp only [Parser.expressions]
  refine (ih.expr ctx .or).bind fun x x' hx => like_peek.bind fun sep sep' hsep => ?_
  rw [kind_eq hsep]
  refine .ite (fun _ => like_advance.bind fun _ _ _ => (ih.expressions ctx).bind fun xs xs' hxs => .pure ?_)
    fun _ => .pure ?_
  · simp only [exprsRetold, hx, hxs]
  · simp only [exprsRetold, hx]

theorem like_primary (ctx : Context) :
    Steady v (Expr.retold v) (Parser.primary ctx (fuel + 1)) := by
  simp only [Parser.primary]
  refine like_peek.bind fun t t' ht => ?_
  have hspan := span_eq ht
  rw [kind_eq ht, text_eq ht, describe_eq ht]
  -- a leaf has the span of its token
  split
  iterate 5 exact like_advance.bind fun _ _ _ => .pure (by simp only [Expr.retold, hspan])
  · exact .ite (fun _ => like_advance.bind fun _ _ _ => .pure (by simp only [Expr.retold, hspan])) fun _ =>
      like_refuseAt ht _ _
  · exact (like_plainName ctx).bind fun _ _ _ => .pure (by simp only [Expr.retold, hspan])
  · exact like_advance.bind fun _ _ _ => (ih.expr ctx .or).bind fun x x' hx =>
      (like_expect _).bind fun _ _ _ => .pure hx
  · exact like_refuse _

end Expressions

theorem exprsLike (v : View) (fuel : Nat) : ExprsLike v fuel := by
  induction fuel with
  | zero =>
    refine ⟨fun _ _ => ?_, fun _ _ _ _ _ _ _ _ => ?_, fun _ _ _ _ _ _ _ => ?_, fun _ => ?_, fun _ => ?_,
      fun _ => ?_⟩
    all_goals simp only [expr, chain, trail, arguments, expressions, primary]; exact like_spend
  | succ fuel ih =>
    exact ⟨like_expr ih, fun ctx level _ _ => like_chain ih ctx level, fun ctx _ _ => like_trail ih ctx,
      like_arguments ih, like_expressions ih, like_primary ih⟩

/-! ### Statements -/

section Simple
variable {v : View} (ctx : Context) (fuel : Nat)

theorem like_simple : Steady v (Stmt.retold v) (simple ctx fuel) := by
  refine like_peek.bind fun start start' hstart => ((exprsLike v fuel).expr ctx .or).bind fun x x' hx =>
    like_peek.bind fun t t' ht => ?_
  rw [kind_eq ht, Expr.isPlace_congr hx, describe_eq hstart]
  refine .ite (fun _ => .ite (fun _ => ?_) fun _ => like_refuseAt hstart _ _) fun _ => ?_
  · refine like_advance.bind fun _ _ _ => ((exprsLike v fuel).expr ctx .or).bind fun y y' hy =>
      (like_spanFrom hstart).bind fun _ _ hspan => .pure ?_
    simp only [Stmt.retold, hx, hy, hspan]
  · refine (like_spanFrom hstart).bind fun _ _ hspan => .pure ?_
    simp only [Stmt.retold, hx, hspan]

theorem like_returnStmt : Steady v (Stmt.retold v) (returnStmt ctx fuel) := by
  refine like_peek.bind fun start start' hstart => ?_
  rw [describe_eq hstart]
  refine .ite (fun _ => like_advance.bind fun _ _ _ => like_peek.bind fun t t' ht => ?_)
    fun _ => like_refuseAt hstart _ _
  rw [kind_eq ht]
  refine .ite (fun _ => (like_spanFrom hstart).bind fun _ _ hspan => .pure ?_) fun _ =>
    ((exprsLike v fuel).expr ctx .or).bind fun x x' hx => (like_spanFrom hstart).bind fun _ _ hspan => .pure ?_
  · simp only [Stmt.retold, Option.map_none, hspan]
  · simp only [Stmt.retold, Option.map_some, hx, hspan]

theorem like_printStmt : Steady v (Stmt.retold v) (printStmt ctx fuel) := by
  refine (like_expect _).bind fun start start' hstart => (like_expect _).bind fun _ _ _ =>
    ((exprsLike v fuel).expr ctx .or).bind fun x x' hx => (like_expect _).bind fun _ _ _ =>
      (like_spanFrom hstart).bind fun _ _ hspan => .pure ?_
  simp only [Stmt.retold, hx, hspan]

theorem like_loopControl : Steady v (Stmt.retold v) (loopControl ctx) := by
  refine like_peek.bind fun t t' ht => ?_
  have hspan := span_eq ht
  rw [kind_eq ht, describe_eq ht]
  refine .ite (fun _ => like_advance.bind fun _ _ _ => .pure ?_) fun _ => like_refuseAt ht _ _
  split <;> simp only [Stmt.retold, hspan]

end Simple

/-- The readers of statements at a fuel. -/
structure StmtsLike (v : View) (fuel : Nat) : Prop where
  statements (ctx : Context) (stop : Kind) :
    Steady v (stmtsRetold v) (statements ctx stop fuel)
  block (ctx : Context) : Steady v (stmtsRetold v) (block ctx fuel)
  statement (ctx : Context) : Steady v (Stmt.retold v) (statement ctx fuel)
  function (ctx : Context) (isMethod : Bool) :
    Steady v (functionRetold v) (function ctx isMethod fuel)
  methods (ctx : Context) : Steady v (methodsRetold v) (methods ctx fuel)
  branch (ctx : Context) : Steady v (Stmt.retold v) (branch ctx fuel)

section Statements
variable {v : View} {fuel : Nat} (ih : StmtsLike v fuel) (ctx : Context)
include ih

theorem like_statements (stop : Kind) :
    Steady v (stmtsRetold v) (Parser.statements ctx stop (fuel + 1)) := by
  simp only [Parser.statements]
  refine like_skipSemicolons.bind fun _ _ _ => like_peek.bind fun t t' ht => ?_
  rw [kind_eq ht]
  refine .ite (fun _ => .pure rfl) fun _ => .ite (fun _ => like_refuse _) fun _ =>
    (ih.statement ctx).bind fun s s' hs => (ih.statements ctx stop).bind fun ss ss' hss => .pure ?_
  simp only [stmtsRetold, hs, hss]

theorem like_block : Steady v (stmtsRetold v) (Parser.block ctx (fuel + 1)) := by
  simp only [Parser.block]
  exact (like_expect _).bind fun _ _ _ => (ih.statements ctx .rightBrace).bind fun ss ss' hss =>
    (like_expect _).bind fun _ _ _ => .pure hss

theorem like_function (isMethod : Bool) :
    Steady v (functionRetold v) (Parser.function ctx isMethod (fuel + 1)) := by
  -- what comes behind the parameters, the same for none and for some
  have hbehind : ∀ {start start' : Token}, start.sight v = start'.sight v → ∀ (name : Text) (params : List Text),
      Like v (functionRetold v)
      (do
        closeList
        let body ← Parser.block (ctx.function isMethod) fuel
        return ⟨← spanFrom start, name, params, body⟩)
      (do
        closeList
        let body ← Parser.block (ctx.function isMethod) fuel
        return ⟨← spanFrom start', name, params, body⟩) := by
    intro start start' hstart name params
    refine like_closeList.bind fun _ _ _ => (ih.block _).bind fun ss ss' hss =>
      (like_spanFrom hstart).bind fun _ _ hspan => .pure ?_
    simp only [functionRetold, hss, hspan]
  simp only [Parser.function]
  refine (like_expect _).bind fun start start' hstart => (like_plainName ctx).bind fun name name' hname =>
    (like_expect _).bind fun _ _ _ => like_peek.bind fun t t' ht => ?_
  rw [kind_eq ht, text_eq hname]
  refine .ite (fun _ => (Like.pure rfl : Like v id _ _).bind fun ps ps' hps => ?_) fun _ =>
    (like_parameters ctx fuel _).bind fun ps ps' hps => ?_
  all_goals
    rw [show ps = ps' from hps]
    exact hbehind hstart name'.text ps'

theorem like_methods :
    Steady v (methodsRetold v) (Parser.methods ctx (fuel + 1)) := by
  simp only [Parser.methods]
  refine like_skipSemicolons.bind fun _ _ _ => like_peek.bind fun t t' ht => ?_
  rw [kind_eq ht]
  refine .ite (fun _ => .pure rfl) fun _ => .ite (fun _ => ?_) fun _ => like_refuse _
  refine (ih.function ctx true).bind fun f f' hf => (ih.methods ctx).bind fun fs fs' hfs => .pure ?_
  simp only [methodsRetold, hf, hfs]

theorem like_branch : Steady v (Stmt.retold v) (Parser.branch ctx (fuel + 1)) := by
  simp only [Parser.branch]
  refine (like_expect _).bind fun start start' hstart => ((exprsLike v fuel).expr ctx .or).bind fun x x' hx =>
    (ih.block ctx).bind fun ss ss' hss => like_peek.bind fun t t' ht => ?_
  rw [kind_eq ht]
  refine .ite (fun _ => like_advance.bind fun _ _ _ => like_peek.bind fun u u' hu => ?_) fun _ =>
    (like_spanFrom hstart).bind fun _ _ hspan => .pure ?_
  · rw [kind_eq hu]
    split
    · refine (ih.branch ctx).bind fun s s' hs => (like_spanFrom hstart).bind fun _ _ hspan => .pure ?_
      simp only [Stmt.retold, stmtsRetold, hx, hss, hs, hspan]
    · refine (ih.block ctx).bind fun os os' hos => (like_spanFrom hstart).bind fun _ _ hspan => .pure ?_
      simp only [Stmt.retold, hx, hss, hos, hspan]
    · exact like_refuse _
  · simp only [Stmt.retold, hx, hss, hspan]

theorem like_statement :
    Steady v (Stmt.retold v) (Parser.statement ctx (fuel + 1)) := by
  simp only [Parser.statement]
  refine like_traceStatement.bind fun _ _ _ => like_peek.bind fun t t' ht => ?_
  rw [kind_eq ht]
  split
  · refine (ih.function ctx false).bind fun f f' hf => .pure ?_
    simp only [Stmt.retold, hf]
  · refine (like_expect _).bind fun start start' hstart => (like_plainName ctx).bind fun name name' hname =>
      (like_expect _).bind fun _ _ _ => (ih.methods ctx).bind fun fs fs' hfs =>
        (like_expect _).bind fun _ _ _ => (like_spanFrom hstart).bind fun _ _ hspan => .pure ?_
    simp only [Stmt.retold, text_eq hname, hfs, hspan]
  · exact ih.branch ctx
  · refine (like_expect _).bind fun start start' hstart => ((exprsLike v fuel).expr ctx .or).bind fun x x' hx =>
      (ih.block ctx.loop).bind fun ss ss' hss => (like_spanFrom hstart).bind fun _ _ hspan => .pure ?_
    simp only [Stmt.retold, hx, hss, hspan]
  · exact like_returnStmt ctx fuel
  · exact like_printStmt ctx fuel
  · exact like_loopControl ctx
  · exact like_loopControl ctx
  · exact like_simple ctx fuel

end Statements

theorem stmtsLike (v : View) (fuel : Nat) : StmtsLike v fuel := by
  induction fuel with
  | zero =>
    refine ⟨fun _ _ => ?_, fun _ => ?_, fun _ => ?_, fun _ _ => ?_, fun _ => ?_, fun _ => ?_⟩
    all_goals simp only [statements, block, statement, function, methods, branch]; exact like_spend
  | succ fuel ih =>
    exact ⟨like_statements ih, like_block ih, like_statement ih, like_function ih, like_methods ih,
      like_branch ih⟩

/-! ### Programs -/

/-- A failure as it looks in a view. -/
def Failure.viewed (v : View) : Failure → Failure
  | .refused r => .refused { r with line := (v.see r.line r.column).line, column := (v.see r.line r.column).column }
  | .spent => .spent

/-- A failure without its place. -/
def Failure.unplaced : Failure → Failure
  | .refused r => .refused { r with line := 0, column := 0 }
  | .spent => .spent

theorem Failure.viewed_blind : Failure.viewed .blind = Failure.unplaced := by
  funext f
  cases f <;> rfl

theorem Failure.viewed_placed (f : Failure) : f.viewed .placed = f := by
  cases f <;> rfl

section Programs
variable {v : View} {tokens tokens' : List Token}

/-- Replies that are alike give one tree or one failure, as far as can be seen. -/
theorem Reply.Like.result {reply reply' : Reply Program} (h : reply.Like v (Program.viewed v) reply') :
    (reply.result.map (Program.viewed v)).mapError (Failure.viewed v) =
      (reply'.result.map (Program.viewed v)).mapError (Failure.viewed v) := by
  cases reply with
  | ok p c =>
    cases reply' with
    | ok p' c' => exact congrArg Except.ok h.1
    | _ => simp only [Reply.Like] at h
  | refused r log =>
    cases reply' with
    | refused r' log' =>
      have hr : (Failure.refused r).viewed v = (Failure.refused r').viewed v := by
        simp only [Failure.viewed, h.expected, h.found, h.place]
      exact congrArg Except.error hr
    | _ => simp only [Reply.Like] at h
  | spent =>
    cases reply' with
    | spent => rfl
    | _ => simp only [Reply.Like] at h

theorem sight_endBehind (h : tokens.map (Token.sight v) = tokens'.map (Token.sight v)) :
    (endBehind tokens).sight v = (endBehind tokens').sight v := by
  have hlast := congrArg List.getLast? h
  rw [List.getLast?_map, List.getLast?_map] at hlast
  unfold endBehind
  cases ht : tokens.getLast? with
  | none =>
    rw [ht] at hlast
    rw [Option.map_eq_none_iff.mp hlast.symm]
  | some t =>
    rw [ht] at hlast
    obtain ⟨t', ht', hsight⟩ := Option.map_eq_some_iff.mp hlast.symm
    rw [ht']
    dsimp only
    rw [kind_eq hsight.symm, text_eq hsight.symm]
    split
    · exact hsight.symm
    · exact congrArg (Prod.mk _) (v.shift (span_eq hsight.symm) _)

theorem like_ofTokens (h : tokens.map (Token.sight v) = tokens'.map (Token.sight v)) :
    (Cursor.ofTokens tokens).Like v (Cursor.ofTokens tokens') := by
  have htake : ∀ ts : List Token, (ts.takeWhile (·.kind != .endOfInput)).map (Token.sight v) =
      (ts.map (Token.sight v)).takeWhile (·.1.1 != .endOfInput) := fun ts => by
    rw [List.takeWhile_map]
    rfl
  refine ⟨?_, sight_endBehind h⟩
  simp only [Cursor.ofTokens]
  rw [htake, htake, h]

/-- Tokens that look the same make programs that look the same, or fail alike. -/
theorem parse_viewed (h : tokens.map (Token.sight v) = tokens'.map (Token.sight v)) :
    ((parse tokens).map (Program.viewed v)).mapError (Failure.viewed v) =
      ((parse tokens').map (Program.viewed v)).mapError (Failure.viewed v) := by
  have hlen : tokens.length = tokens'.length := by
    have := congrArg List.length h
    rwa [List.length_map, List.length_map] at this
  have hlike : Like v (Program.viewed v) (program (fuelFor tokens)) (program (fuelFor tokens')) := by
    rw [fuelFor, hlen]
    refine like_peek.bind fun t t' _ => ((stmtsLike v _).statements _ _).bind fun ss ss' hss => .pure ?_
    simp only [Program.viewed, hss]
  exact (hlike _ _ (like_ofTokens h)).result

/-- Tokens that say the same words make the same program up to spans, or fail alike. -/
theorem parse_congr (h : tokens.map Token.word = tokens'.map Token.word) :
    ((parse tokens).map Program.bare).mapError Failure.unplaced =
      ((parse tokens').map Program.bare).mapError Failure.unplaced := by
  have hsight : ∀ ts : List Token, ts.map (Token.sight .blind) = (ts.map Token.word).map (·, Span.none) := by
    intro ts
    rw [List.map_map]
    rfl
  have hviewed := @parse_viewed .blind tokens tokens' (by rw [hsight, hsight, h])
  rwa [Failure.viewed_blind] at hviewed

end Programs

end Parser

end Anadil
