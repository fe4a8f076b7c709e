import Anadil.Proofs.Tree.Fuel

/-! # Tokens that are cut off

Of tokens that make a program, the first few make a program too or are refused for the end that comes too
early, and never for one of the tokens that are there. Two readings run side by side, one of all tokens and
one of the first few. As long as the second has tokens to come it does what the first does, and once it has
none it can only stop or complain about the end. The fuels of the two have nothing to do with each other. -/

namespace Anadil

namespace Parser

variable {last : Token} {α β : Type} {k k' : Token → Reader β}

/-- The second cursor stands where the first does, but only some of the tokens to come are left to it, and
behind them stands `last`. -/
structure Cursor.Cut (last : Token) (c c' : Cursor) : Prop where
  rest : c'.rest <+: c.rest
  previous : c'.previous = c.previous
  finish : c'.finish = last

/-- The reading has come to the token `last` behind all others, or complains about it. -/
def Reply.AtEnd (last : Token) {α : Type} : Reply α → Prop
  | .ok _ c => c.rest = [] ∧ c.finish = last
  | .refused r _ => r.line = last.span.line ∧ r.column = last.span.column ∧ r.found = "end of input"
  | .spent => True

/-- Without a token to come the reader does not get any further. -/
def Exhausted (last : Token) {α : Type} (r : Reader α) : Prop :=
  ∀ c : Cursor, c.rest = [] → c.finish = last → (r c).AtEnd last

/-- Without a token to come the reader complains about the end. -/
def Complains (last : Token) {α : Type} (r : Reader α) : Prop :=
  ∀ c : Cursor, c.rest = [] → c.finish = last → ∃ e log, r c = .refused e log ∧
    e.line = last.span.line ∧ e.column = last.span.column ∧ e.found = "end of input"

/-- Where the first reader succeeds, the second one, which has fewer tokens but some, gives the same, or it
comes to their end. -/
def Follows (last : Token) {α : Type} (r r' : Reader α) : Prop :=
  ∀ c c' a d, Cursor.Cut last c c' → c'.rest ≠ [] → r c = .ok a d →
    (∃ d', r' c' = .ok a d' ∧ Cursor.Cut last d d') ∨ (r' c').AtEnd last

/-- Where the first reader succeeds, the second one gives the same, even if this was its last token. -/
def Echoes (last : Token) {α : Type} (r r' : Reader α) : Prop :=
  ∀ c c' a d, Cursor.Cut last c c' → c'.rest ≠ [] → r c = .ok a d →
    ∃ d', r' c' = .ok a d' ∧ Cursor.Cut last d d'

/-- What holds of a reader and its second, with tokens to come and without. -/
structure Cuts (last : Token) {α : Type} (r r' : Reader α) : Prop where
  follows : Follows last r r'
  exhausted : Exhausted last r'

section Rules
variable {r r' s s' : Reader α} {k k' : α → Reader β}

theorem Echoes.follows (h : Echoes last r r') : Follows last r r' :=
  fun c c' a d hcut hne hr => .inl (h c c' a d hcut hne hr)

theorem Complains.exhausted (h : Complains last r) : Exhausted last r := by
  intro c hrest hfinish
  obtain ⟨e, log, hc, he⟩ := h c hrest hfinish
  rw [hc]
  exact he

theorem Complains.bind (h : Complains last r) (k : α → Reader β) : Complains last (r >>= k) := by
  intro c hrest hfinish
  obtain ⟨e, log, hc, he⟩ := h c hrest hfinish
  refine ⟨e, log, ?_, he⟩
  simp only [Bind.bind, Reader.bind, hc]

theorem Exhausted.bind (hr : Exhausted last r) (hk : ∀ a, Exhausted last (k a)) :
    Exhausted last (r >>= k) := by
  intro c hrest hfinish
  have h := hr c hrest hfinish
  simp only [Bind.bind, Reader.bind]
  cases hc : r c with
  | ok a d =>
    rw [hc] at h
    exact hk a d h.1 h.2
  | refused e log =>
    rw [hc] at h
    exact h
  | spent => trivial

theorem Follows.bind (hr : Follows last r r') (hk : ∀ a, Cuts last (k a) (k' a)) :
    Follows last (r >>= k) (r' >>= k') := by
  intro c c' b e hcut hne h
  obtain ⟨a, d, hc, hkd⟩ := bind_eq_ok.mp h
  simp only [Bind.bind, Reader.bind]
  rcases hr c c' a d hcut hne hc with ⟨d', hc', hcut'⟩ | hend
  · rw [hc']
    by_cases hrest : d'.rest = []
    · exact .inr ((hk a).exhausted d' hrest hcut'.finish)
    · exact (hk a).follows d d' b e hcut' hrest hkd
  · -- the second reader has come to the end by itself
    refine .inr ?_
    cases hc' : r' c' with
    | ok a' d' =>
      rw [hc'] at hend
      exact (hk a').exhausted d' hend.1 hend.2
    | refused e' log =>
      rw [hc'] at hend
      exact hend
    | spent => trivial

/-- A reader that gives the same even at its last token may be followed by one that depends on what was
given: only what the first reading goes on with has to be looked at. -/
theorem Echoes.bind (hr : Echoes last r r') (hk : ∀ a, Follows last (k a) (k' a))
    (hend : ∀ a d b e, k a d = .ok b e → Exhausted last (k' a)) : Follows last (r >>= k) (r' >>= k') := by
  intro c c' b e hcut hne h
  obtain ⟨a, d, hc, hkd⟩ := bind_eq_ok.mp h
  obtain ⟨d', hc', hcut'⟩ := hr c c' a d hcut hne hc
  simp only [Bind.bind, Reader.bind, hc']
  by_cases hrest : d'.rest = []
  · exact .inr (hend a d b e hkd d' hrest hcut'.finish)
  · exact hk a d d' b e hcut' hrest hkd

theorem Cuts.bind (hr : Cuts last r r') (hk : ∀ a, Cuts last (k a) (k' a)) :
    Cuts last (r >>= k) (r' >>= k') :=
  ⟨hr.follows.bind hk, hr.exhausted.bind fun a => (hk a).exhausted⟩

theorem cuts_pure (a : α) : Cuts last (pure a) (pure a) where
  follows c c' b d hcut _ h := by
    obtain ⟨rfl, rfl⟩ := pure_eq_ok.mp h
    exact .inl ⟨c', rfl, hcut⟩
  exhausted _ hrest hfinish := ⟨hrest, hfinish⟩

theorem Follows.ite {p : Prop} [Decidable p] (hr : p → Follows last r r') (hs : ¬p → Follows last s s') :
    Follows last (if p then r else s) (if p then r' else s') := by
  by_cases h : p
  · rw [if_pos h, if_pos h]
    exact hr h
  · rw [if_neg h, if_neg h]
    exact hs h

theorem Cuts.ite {p : Prop} [Decidable p] (hr : Cuts last r r') (hs : Cuts last s s') :
    Cuts last (if p then r else s) (if p then r' else s') := by
  by_cases h : p
  · rwa [if_pos h, if_pos h]
  · rwa [if_neg h, if_neg h]

theorem follows_of_ne_ok (h : ∀ c a d, r c ≠ .ok a d) : Follows last r r' :=
  fun c _ a d _ _ hr => absurd hr (h c a d)

theorem follows_refuseAt (t : Token) (expected : List Text) (found : Text) :
    Follows last (refuseAt t expected found) r' :=
  follows_of_ne_ok fun _ _ _ => refuseAt_ne_ok

/-- Without fuel the first reading does not succeed, whatever fuel the second has. -/
theorem Cuts.of_succ {r : Nat → Reader α} (hzero : r 0 = spend) (h : ∀ fuel, Cuts last (r (fuel + 1)) r')
    (fuel : Nat) : Cuts last (r fuel) r' := by
  cases fuel with
  | zero =>
    rw [hzero]
    exact ⟨follows_of_ne_ok fun _ _ _ => spend_ne_ok, (h 0).exhausted⟩
  | succ fuel => exact h fuel

/-- Without fuel of its own the second reading comes to no end that would count. -/
theorem cuts_spend : Cuts last r spend :=
  ⟨fun _ _ _ _ _ _ _ => .inr trivial, fun _ _ _ => trivial⟩

end Rules

/-! ### Single tokens -/

namespace Cursor.Cut
variable {c c' : Cursor}

theorem token (h : Cut last c c') (hne : c'.rest ≠ []) : c'.token = c.token := by
  obtain ⟨gone, hgone⟩ := h.rest
  cases hrest : c'.rest with
  | nil => exact absurd hrest hne
  | cons t rest =>
    rw [hrest] at hgone
    simp [Cursor.token, hrest, ← hgone]

theorem advance (h : Cut last c c') (hne : c'.rest ≠ []) : Cut last c.advance c'.advance := by
  obtain ⟨gone, hgone⟩ := h.rest
  cases hrest : c'.rest with
  | nil => exact absurd hrest hne
  | cons t rest =>
    rw [hrest, List.cons_append] at hgone
    simp only [Cursor.advance, hrest, ← hgone]
    exact ⟨⟨gone, rfl⟩, rfl, h.finish⟩

end Cursor.Cut

theorem echoes_advance : Echoes last advance advance := by
  intro c c' t d hcut hne h
  obtain ⟨rfl, rfl⟩ := advance_eq_ok.mp h
  exact ⟨_, advance_eq_ok.mpr ⟨hcut.token hne, rfl⟩, hcut.advance hne⟩

theorem echoes_expect (kind : Kind) : Echoes last (expect kind) (expect kind) := by
  intro c c' t d hcut hne h
  obtain ⟨hk, rfl, rfl⟩ := expect_eq_ok.mp h
  have htoken := hcut.token hne
  exact ⟨_, expect_eq_ok.mpr ⟨htoken ▸ hk, htoken, rfl⟩, hcut.advance hne⟩

theorem echoes_closeList : Echoes last closeList closeList := by
  intro c c' u d hcut hne h
  obtain ⟨hk, rfl⟩ := closeList_eq_ok.mp h
  exact ⟨_, closeList_eq_ok.mpr ⟨hcut.token hne ▸ hk, rfl⟩, hcut.advance hne⟩

theorem echoes_memberName : Echoes last memberName memberName := by
  intro c c' t d hcut hne h
  obtain ⟨hk, hr, rfl, rfl⟩ := memberName_eq_ok.mp h
  have htoken := hcut.token hne
  exact ⟨_, memberName_eq_ok.mpr ⟨htoken ▸ hk, htoken ▸ hr, htoken, rfl⟩, hcut.advance hne⟩

theorem echoes_plainName (ctx : Context) : Echoes last (plainName ctx) (plainName ctx) := by
  intro c c' t d hcut hne h
  obtain ⟨hk, hmay, rfl, rfl⟩ := plainName_eq_ok h
  have htoken := hcut.token hne
  rw [← htoken] at hk hmay ⊢
  exact ⟨_, plainName_ok hk hmay, hcut.advance hne⟩

theorem cuts_advance : Cuts last advance advance where
  follows := echoes_advance.follows
  exhausted c hrest hfinish := by
    simp only [advance, Cursor.advance, hrest]
    exact ⟨hrest, hfinish⟩

theorem cuts_spanFrom (start : Token) : Cuts last (spanFrom start) (spanFrom start) where
  follows c c' span d hcut _ h := by
    simp only [spanFrom, Reply.ok.injEq] at h
    obtain ⟨rfl, rfl⟩ := h
    exact .inl ⟨c', by simp only [spanFrom, hcut.previous], hcut⟩
  exhausted _ hrest hfinish := ⟨hrest, hfinish⟩

theorem cuts_spanned {f : Span → α} (start : Token) :
    Cuts last (spanFrom start >>= fun span => pure (f span)) (spanFrom start >>= fun span => pure (f span)) :=
  (cuts_spanFrom start).bind fun _ => cuts_pure _

theorem cuts_traceStatement : Cuts last traceStatement traceStatement where
  follows c c' u d hcut _ h := by
    simp only [traceStatement, Reply.ok.injEq] at h
    obtain ⟨-, rfl⟩ := h
    exact .inl ⟨_, rfl, hcut.rest, hcut.previous, hcut.finish⟩
  exhausted _ hrest hfinish := ⟨hrest, hfinish⟩

/-- The semicolons that the second cursor skips are those that the first one does, unless it has no others. -/
theorem cuts_skipSemicolons : Cuts last skipSemicolons skipSemicolons where
  follows c c' u d hcut _ h := by
    simp only [skipSemicolons, Reply.ok.injEq] at h
    obtain ⟨-, rfl⟩ := h
    by_cases hnil : c'.rest.dropWhile (·.kind == .semicolon) = []
    · exact .inr ⟨hnil, hcut.finish⟩
    · obtain ⟨gone, hgone⟩ := hcut.rest
      have hlength : (c'.rest.takeWhile (·.kind == .semicolon)).length ≠ c'.rest.length := by
        intro hlength
        have hsplit := congrArg List.length
          (List.takeWhile_append_dropWhile (p := (·.kind == .semicolon)) (l := c'.rest))
        rw [List.length_append, hlength] at hsplit
        exact hnil (List.length_eq_zero_iff.mp (by omega))
      refine .inl ⟨_, rfl, ?_, ?_, hcut.finish⟩
      · rw [← hgone, List.dropWhile_append, if_neg (by simpa using hnil)]
        exact ⟨gone, rfl⟩
      · rw [← hgone, List.takeWhile_append, if_neg hlength, hcut.previous]
  exhausted c hrest hfinish := by
    refine ⟨?_, hfinish⟩
    simp [hrest]

section Tokens
variable (hlast : last.kind = .endOfInput)

theorem token_of_rest_nil {c : Cursor} (hrest : c.rest = []) (hfinish : c.finish = last) :
    c.token = last := by
  rw [Cursor.token, hrest, ← hfinish]
  rfl

theorem Follows.peek (hk : ∀ t, Follows last (k t) (k' t)) : Follows last (peek >>= k) (peek >>= k') := by
  intro c c' b d hcut hne h
  rw [peek_bind] at h ⊢
  rw [hcut.token hne]
  exact hk c.token c c' b d hcut hne h

/-- At the end of the tokens, the token to come is the one behind them. -/
theorem Cuts.peek (hk : ∀ t, Follows last (k t) (k' t))
    (hend : Exhausted last (k' last)) : Cuts last (peek >>= k) (peek >>= k') where
  follows := .peek hk
  exhausted c hrest hfinish := by
    rw [peek_bind, token_of_rest_nil hrest hfinish]
    exact hend c hrest hfinish

theorem Cuts.peek_of_forall (hk : ∀ t, Cuts last (k t) (k' t)) :
    Cuts last (Parser.peek >>= k) (Parser.peek >>= k') :=
  .peek (fun t => (hk t).follows) (hk last).exhausted

include hlast

theorem complains_refuse (expected : List Text) : Complains last (refuse expected : Reader α) := by
  intro c hrest hfinish
  rw [refuse, peek_bind, token_of_rest_nil hrest hfinish]
  refine ⟨_, _, rfl, rfl, rfl, ?_⟩
  simp only [Lexeme.describe, hlast]

theorem cuts_refuse (expected : List Text) : Cuts last (refuse expected : Reader α) (refuse expected) :=
  ⟨follows_of_ne_ok fun _ _ _ => refuse_ne_ok, (complains_refuse hlast expected).exhausted⟩

theorem complains_expect {kind : Kind} (hne : kind ≠ .endOfInput) : Complains last (expect kind) := by
  intro c hrest hfinish
  rw [expect, peek_bind, token_of_rest_nil hrest hfinish, if_neg (by rw [hlast]; exact hne.symm)]
  exact complains_refuse hlast _ c hrest hfinish

theorem complains_closeList : Complains last closeList := by
  intro c hrest hfinish
  rw [closeList, peek_bind, token_of_rest_nil hrest hfinish, if_neg (by rw [hlast]; decide)]
  exact complains_refuse hlast _ c hrest hfinish

theorem complains_memberName : Complains last memberName := (complains_expect hlast (by decide)).bind _

theorem complains_plainName (ctx : Context) : Complains last (plainName ctx) :=
  (complains_memberName hlast).bind _

theorem cuts_expect {kind : Kind} (hne : kind ≠ .endOfInput := by decide) :
    Cuts last (expect kind) (expect kind) :=
  ⟨(echoes_expect kind).follows, (complains_expect hlast hne).exhausted⟩

theorem cuts_closeList : Cuts last closeList closeList :=
  ⟨echoes_closeList.follows, (complains_closeList hlast).exhausted⟩

theorem cuts_memberName : Cuts last memberName memberName :=
  ⟨echoes_memberName.follows, (complains_memberName hlast).exhausted⟩

theorem cuts_plainName (ctx : Context) : Cuts last (plainName ctx) (plainName ctx) :=
  ⟨(echoes_plainName ctx).follows, (complains_plainName hlast ctx).exhausted⟩

/-- A name that comes twice is refused at the name, which the first reading would have done too. -/
theorem cuts_parameters (ctx : Context) (fuel fuel' : Nat) (seen : List Text) :
    Cuts last (parameters ctx fuel seen) (parameters ctx fuel' seen) := by
  induction fuel' generalizing fuel seen with
  | zero => exact cuts_spend
  | succ fuel' ih =>
    have hend : Exhausted last (parameters ctx (fuel' + 1) seen) :=
      ((complains_plainName hlast ctx).bind _).exhausted
    cases fuel with
    | zero => exact ⟨follows_of_ne_ok fun _ _ _ => spend_ne_ok, hend⟩
    | succ fuel =>
      -- what comes behind a name that is new
      have hbehind : ∀ t : Token, Cuts last
          (do
            let sep ← peek
            if sep.kind = .comma then
              let _ ← advance
              return t.text :: (← parameters ctx fuel (t.text :: seen))
            else return [t.text])
          (do
            let sep ← peek
            if sep.kind = .comma then
              let _ ← advance
              return t.text :: (← parameters ctx fuel' (t.text :: seen))
            else return [t.text]) := fun t =>
        .peek_of_forall fun sep => .ite
          (cuts_advance.bind fun _ => (ih fuel _).bind fun _ => cuts_pure _) (cuts_pure _)
      refine ⟨?_, hend⟩
      refine (echoes_plainName ctx).bind (fun t => .ite (fun _ => follows_refuseAt _ _ _)
        fun _ => (hbehind t).follows) fun t d names e h => ?_
      split at h
      · exact absurd h refuseAt_ne_ok
      · rename_i hseen
        rw [if_neg hseen]
        exact (hbehind t).exhausted

end Tokens

/-! ### Expressions -/

/-- The readers of expressions, the second one at a fuel and the first one at any. -/
structure ExprsCut (last : Token) (ctx : Context) (fuel' : Nat) : Prop where
  expr : ∀ fuel level, Cuts last (expr ctx fuel level) (expr ctx fuel' level)
  chain : ∀ fuel level start left, Cuts last (chain ctx fuel level start left) (chain ctx fuel' level start left)
  trail : ∀ fuel start x, Cuts last (trail ctx fuel start x) (trail ctx fuel' start x)
  arguments : ∀ fuel, Cuts last (arguments ctx fuel) (arguments ctx fuel')
  expressions : ∀ fuel, Cuts last (expressions ctx fuel) (expressions ctx fuel')
  primary : ∀ fuel, Cuts last (primary ctx fuel) (primary ctx fuel')

namespace ExprsCut
variable (hlast : last.kind = .endOfInput) {ctx : Context} {fuel' : Nat} (ih : ExprsCut last ctx fuel')
  (fuel : Nat)
include ih

theorem expr_succ (level : Level) :
    Cuts last (Parser.expr ctx (fuel + 1) level) (Parser.expr ctx (fuel' + 1) level) := by
  by_cases hlevel : level = .access
  · subst hlevel
    simp only [Parser.expr]
    exact .peek_of_forall fun start => (ih.primary fuel).bind fun x => ih.trail fuel start x
  · rw [expr_of_ne_access hlevel, expr_of_ne_access hlevel]
    refine .peek_of_forall fun start => .ite ?_ ?_
    · exact cuts_advance.bind fun _ => (ih.expr fuel level).bind fun x =>
        cuts_spanned start
    · exact (ih.expr fuel level.tighter).bind fun left => ih.chain fuel level start left

theorem chain_succ (level : Level) (start : Token) (left : Expr) :
    Cuts last (Parser.chain ctx (fuel + 1) level start left)
      (Parser.chain ctx (fuel' + 1) level start left) := by
  simp only [Parser.chain]
  refine .peek_of_forall fun op => .ite ?_ (cuts_pure _)
  exact cuts_advance.bind fun _ => (ih.expr fuel level.tighter).bind fun right =>
    (cuts_spanFrom start).bind fun span => ih.chain fuel level start _

theorem expressions_succ :
    Cuts last (Parser.expressions ctx (fuel + 1)) (Parser.expressions ctx (fuel' + 1)) := by
  simp only [Parser.expressions]
  refine (ih.expr fuel .or).bind fun x => .peek_of_forall fun sep => .ite ?_ (cuts_pure _)
  exact cuts_advance.bind fun _ => (ih.expressions fuel).bind fun _ => cuts_pure _

theorem arguments_succ :
    Cuts last (Parser.arguments ctx (fuel + 1)) (Parser.arguments ctx (fuel' + 1)) := by
  simp only [Parser.arguments]
  exact .peek_of_forall fun t => .ite (cuts_pure _) (ih.expressions fuel)

include hlast

theorem trail_succ (start : Token) (x : Expr) :
    Cuts last (Parser.trail ctx (fuel + 1) start x) (Parser.trail ctx (fuel' + 1) start x) := by
  simp only [Parser.trail]
  refine .peek_of_forall fun t => ?_
  cases t.kind with
  | leftParen =>
    refine .ite ?_ (cuts_refuse hlast _)
    exact cuts_advance.bind fun _ => (ih.arguments fuel).bind fun args =>
      (cuts_closeList hlast).bind fun _ => (cuts_spanFrom start).bind fun span => ih.trail fuel start _
  | dot =>
    exact cuts_advance.bind fun _ => (cuts_memberName hlast).bind fun name =>
      (cuts_spanFrom start).bind fun span => ih.trail fuel start _
  | _ => exact cuts_pure _

theorem primary_succ :
    Cuts last (Parser.primary ctx (fuel + 1)) (Parser.primary ctx (fuel' + 1)) := by
  simp only [Parser.primary]
  refine .peek (fun t => ?_) ?_
  · have htoken : ∀ x : Expr, Follows last (do let _ ← advance; return x) (do let _ ← advance; return x) :=
      fun _ => (cuts_advance.bind fun _ => cuts_pure _).follows
    cases t.kind with
    | number | string | trueWord | falseWord | nullWord => exact htoken _
    | thisWord => exact .ite (fun _ => htoken _) fun _ => follows_refuseAt _ _ _
    | identifier => exact ((cuts_plainName hlast ctx).bind fun _ => cuts_pure _).follows
    | leftParen =>
      exact (cuts_advance.bind fun _ => (ih.expr fuel .or).bind fun x =>
        (cuts_expect hlast).bind fun _ => cuts_pure _).follows
    | _ => exact (cuts_refuse hlast _).follows
  · simp only [hlast]
    exact (complains_refuse hlast _).exhausted

end ExprsCut

theorem exprsCut (hlast : last.kind = .endOfInput) (ctx : Context) (fuel' : Nat) :
    ExprsCut last ctx fuel' := by
  induction fuel' with
  | zero =>
    refine ⟨fun _ _ => ?_, fun _ _ _ _ => ?_, fun _ _ _ => ?_, fun _ => ?_, fun _ => ?_, fun _ => ?_⟩
    all_goals simp only [expr, chain, trail, arguments, expressions, primary]; exact cuts_spend
  | succ fuel' ih =>
    refine ⟨fun fuel level => ?_, fun fuel level start left => ?_, fun fuel start x => ?_, fun fuel => ?_,
      fun fuel => ?_, fun fuel => ?_⟩
    · exact .of_succ (r := fun n => expr ctx n level) (by simp only [expr])
        (fun fuel => ih.expr_succ fuel level) fuel
    · exact .of_succ (r := fun n => chain ctx n level start left) (by simp only [chain])
        (fun fuel => ih.chain_succ fuel level start left) fuel
    · exact .of_succ (r := fun n => trail ctx n start x) (by simp only [trail])
        (fun fuel => ih.trail_succ hlast fuel start x) fuel
    · exact .of_succ (by simp only [arguments]) ih.arguments_succ fuel
    · exact .of_succ (by simp only [expressions]) ih.expressions_succ fuel
    · exact .of_succ (by simp only [primary]) (ih.primary_succ hlast) fuel

/-! ### Statements -/

section Simple
variable (hlast : last.kind = .endOfInput) (ctx : Context) (fuel fuel' : Nat)
include hlast

/-- A target that cannot be assigned to is refused at its first token, but only in front of a `=`. -/
theorem cuts_simple : Cuts last (simple ctx fuel) (simple ctx fuel') := by
  refine .peek_of_forall fun start => ((exprsCut hlast ctx fuel').expr fuel .or).bind fun x => ?_
  have hplain : Cuts last (do return .expression (← spanFrom start) x : Reader Stmt)
      (do return .expression (← spanFrom start) x) :=
    cuts_spanned start
  refine .peek (fun t => .ite (fun _ => .ite (fun _ => ?_) fun _ => follows_refuseAt _ _ _)
    fun _ => hplain.follows) ?_
  · exact (cuts_advance.bind fun _ => ((exprsCut hlast ctx fuel').expr fuel .or).bind fun value =>
      cuts_spanned start).follows
  · rw [if_neg (by rw [hlast]; decide)]
    exact hplain.exhausted

theorem follows_returnStmt : Follows last (returnStmt ctx fuel) (returnStmt ctx fuel') := by
  refine .peek fun start => .ite (fun _ => ?_) fun _ => follows_refuseAt _ _ _
  refine (cuts_advance.bind fun _ => .peek_of_forall fun t => .ite ?_ ?_).follows
  · exact cuts_spanned start
  · exact ((exprsCut hlast ctx fuel').expr fuel .or).bind fun value =>
      cuts_spanned start

theorem cuts_printStmt : Cuts last (printStmt ctx fuel) (printStmt ctx fuel') :=
  (cuts_expect hlast).bind fun start => (cuts_expect hlast).bind fun _ =>
    ((exprsCut hlast ctx fuel').expr fuel .or).bind fun value =>
      (cuts_expect hlast).bind fun _ => cuts_spanned start

omit hlast in
theorem follows_loopControl : Follows last (loopControl ctx) (loopControl ctx) :=
  .peek fun _ => .ite (fun _ => (cuts_advance.bind fun _ => cuts_pure _).follows)
    fun _ => follows_refuseAt _ _ _

end Simple

/-- The readers of statements, the second one at a fuel and the first one at any. -/
structure StmtsCut (last : Token) (fuel' : Nat) : Prop where
  statements : ∀ ctx stop fuel, Cuts last (statements ctx stop fuel) (statements ctx stop fuel')
  block : ∀ ctx fuel, Cuts last (block ctx fuel) (block ctx fuel')
  statement : ∀ ctx fuel, Cuts last (statement ctx fuel) (statement ctx fuel')
  function : ∀ ctx isMethod fuel, Cuts last (function ctx isMethod fuel) (function ctx isMethod fuel')
  methods : ∀ ctx fuel, Cuts last (methods ctx fuel) (methods ctx fuel')
  branch : ∀ ctx fuel, Cuts last (branch ctx fuel) (branch ctx fuel')

namespace StmtsCut
variable (hlast : last.kind = .endOfInput) {fuel' : Nat} (ih : StmtsCut last fuel') (ctx : Context)
include hlast ih

theorem statements_succ (stop : Kind) (fuel : Nat) :
    Cuts last (Parser.statements ctx stop (fuel + 1)) (Parser.statements ctx stop (fuel' + 1)) := by
  simp only [Parser.statements]
  refine cuts_skipSemicolons.bind fun _ => .peek_of_forall fun t =>
    .ite (cuts_pure _) (.ite (cuts_refuse hlast _) ?_)
  exact (ih.statement ctx fuel).bind fun s => (ih.statements ctx stop fuel).bind fun ss => cuts_pure _

theorem block_succ (fuel : Nat) :
    Cuts last (Parser.block ctx (fuel + 1)) (Parser.block ctx (fuel' + 1)) := by
  simp only [Parser.block]
  exact (cuts_expect hlast).bind fun _ => (ih.statements ctx .rightBrace fuel).bind fun body =>
    (cuts_expect hlast).bind fun _ => cuts_pure _

theorem function_succ (isMethod : Bool) (fuel : Nat) :
    Cuts last (Parser.function ctx isMethod (fuel + 1)) (Parser.function ctx isMethod (fuel' + 1)) := by
  -- what comes behind the parameters, the same for none and for some
  have hbehind : ∀ (start : Token) (name : Text) (params : List Text), Cuts last
      (do
        closeList
        let body ← Parser.block (ctx.function isMethod) fuel
        return (⟨← spanFrom start, name, params, body⟩ : Function Stmt))
      (do
        closeList
        let body ← Parser.block (ctx.function isMethod) fuel'
        return ⟨← spanFrom start, name, params, body⟩) := fun start name params =>
    (cuts_closeList hlast).bind fun _ => (ih.block _ fuel).bind fun body =>
      cuts_spanned start
  simp only [Parser.function]
  refine (cuts_expect hlast).bind fun start => (cuts_plainName hlast ctx).bind fun name =>
    (cuts_expect hlast).bind fun _ => .peek_of_forall fun t => .ite ?_ ?_
  · exact (cuts_pure []).bind fun params => hbehind start name.text params
  · exact (cuts_parameters hlast ctx fuel fuel' _).bind fun params => hbehind start name.text params

theorem methods_succ (fuel : Nat) :
    Cuts last (Parser.methods ctx (fuel + 1)) (Parser.methods ctx (fuel' + 1)) := by
  simp only [Parser.methods]
  refine cuts_skipSemicolons.bind fun _ => .peek_of_forall fun t =>
    .ite (cuts_pure _) (.ite ?_ (cuts_refuse hlast _))
  exact (ih.function ctx true fuel).bind fun f => (ih.methods ctx fuel).bind fun fs => cuts_pure _

theorem branch_succ (fuel : Nat) :
    Cuts last (Parser.branch ctx (fuel + 1)) (Parser.branch ctx (fuel' + 1)) := by
  simp only [Parser.branch]
  refine (cuts_expect hlast).bind fun start =>
    ((exprsCut hlast ctx fuel').expr fuel .or).bind fun cond => (ih.block ctx fuel).bind fun body =>
      .peek_of_forall fun t => .ite ?_ ?_
  · refine cuts_advance.bind fun _ => .peek_of_forall fun t => ?_
    cases t.kind with
    | ifWord =>
      exact (ih.branch ctx fuel).bind fun _ => cuts_spanned start
    | leftBrace =>
      exact (ih.block ctx fuel).bind fun _ => cuts_spanned start
    | _ => exact cuts_refuse hlast _
  · exact cuts_spanned start

theorem statement_succ (fuel : Nat) :
    Cuts last (Parser.statement ctx (fuel + 1)) (Parser.statement ctx (fuel' + 1)) := by
  simp only [Parser.statement]
  refine cuts_traceStatement.bind fun _ => .peek (fun t => ?_) ?_
  · cases t.kind with
    | functionWord => exact ((ih.function ctx false fuel).bind fun _ => cuts_pure _).follows
    | classWord =>
      exact ((cuts_expect hlast).bind fun start => (cuts_plainName hlast ctx).bind fun name =>
        (cuts_expect hlast).bind fun _ => (ih.methods ctx fuel).bind fun fs =>
          (cuts_expect hlast).bind fun _ => cuts_spanned start).follows
    | ifWord => exact (ih.branch ctx fuel).follows
    | whileWord =>
      exact ((cuts_expect hlast).bind fun start =>
        ((exprsCut hlast ctx fuel').expr fuel .or).bind fun cond => (ih.block ctx.loop fuel).bind fun body =>
          cuts_spanned start).follows
    | returnWord => exact follows_returnStmt hlast ctx fuel fuel'
    | printWord => exact (cuts_printStmt hlast ctx fuel fuel').follows
    | breakWord | continueWord => exact follows_loopControl ctx
    | _ => exact (cuts_simple hlast ctx fuel fuel').follows
  · -- the end of input starts no statement of a kind of its own
    simp only [hlast]
    exact (cuts_simple hlast ctx fuel fuel').exhausted

end StmtsCut

theorem stmtsCut (hlast : last.kind = .endOfInput) (fuel' : Nat) : StmtsCut last fuel' := by
  induction fuel' with
  | zero =>
    refine ⟨fun _ _ _ => ?_, fun _ _ => ?_, fun _ _ => ?_, fun _ _ _ => ?_, fun _ _ => ?_, fun _ _ => ?_⟩
    all_goals simp only [statements, block, statement, function, methods, branch]; exact cuts_spend
  | succ fuel' ih =>
    refine ⟨fun ctx stop => ?_, fun ctx => ?_, fun ctx => ?_, fun ctx isMethod => ?_, fun ctx => ?_,
      fun ctx => ?_⟩
    · exact .of_succ (by simp only [statements]) (ih.statements_succ hlast ctx stop)
    · exact .of_succ (by simp only [block]) (ih.block_succ hlast ctx)
    · exact .of_succ (by simp only [statement]) (ih.statement_succ hlast ctx)
    · exact .of_succ (by simp only [function]) (ih.function_succ hlast ctx isMethod)
    · exact .of_succ (by simp only [methods]) (ih.methods_succ hlast ctx)
    · exact .of_succ (by simp only [branch]) (ih.branch_succ hlast ctx)

/-! ### Programs -/

theorem cuts_program (hlast : last.kind = .endOfInput) (fuel fuel' : Nat) :
    Cuts last (program fuel) (program fuel') :=
  .peek_of_forall fun _ => ((stmtsCut hlast fuel').statements _ _ fuel).bind fun _ => cuts_pure _

theorem cut_ofTokens (tokens : List Token) (n : Nat) :
    Cursor.Cut (endBehind (tokens.take n)) (Cursor.ofTokens tokens) (Cursor.ofTokens (tokens.take n)) where
  rest := by
    simp only [Cursor.ofTokens, ← List.take_takeWhile]
    exact List.take_prefix _ _
  previous := rfl
  finish := rfl

/-- The reading of the first few tokens, next to a reading of all of them that succeeds. -/
theorem run_take {tokens : List Token} {p : Program} {d : Cursor} (h : run tokens = .ok p d) (n : Nat) :
    (∃ q d', run (tokens.take n) = .ok q d') ∨ (run (tokens.take n)).AtEnd (endBehind (tokens.take n)) := by
  have hcuts := cuts_program (endBehind_kind (tokens.take n)) (fuelFor tokens) (fuelFor (tokens.take n))
  by_cases hrest : (Cursor.ofTokens (tokens.take n)).rest = []
  · exact .inr (hcuts.exhausted _ hrest rfl)
  · rcases hcuts.follows _ _ p d (cut_ofTokens tokens n) hrest h with ⟨d', hd', -⟩ | hend
    · exact .inl ⟨p, d', hd'⟩
    · exact .inr hend

/-- The first few of the tokens that make a program make a program too, or they are refused for the end of
input behind them. -/
theorem parse_take {tokens : List Token} {p : Program} (h : parse tokens = .ok p) (n : Nat) :
    (∃ q, parse (tokens.take n) = .ok q) ∨
      ∃ r, parse (tokens.take n) = .error (.refused r) ∧ r.found = "end of input" ∧
        r.line = (endBehind (tokens.take n)).span.line ∧
        r.column = (endBehind (tokens.take n)).span.column := by
  have hspent := parse_ne_spent (tokens.take n)
  unfold parse at h hspent ⊢
  cases hrun : run tokens with
  | refused r log => simp [hrun, Reply.result] at h
  | spent => simp [hrun, Reply.result] at h
  | ok p d =>
    have hcut := run_take hrun n
    cases hrun' : run (tokens.take n) with
    | ok q d' => exact .inl ⟨q, rfl⟩
    | spent =>
      rw [hrun'] at hspent
      exact absurd rfl hspent
    | refused r log =>
      rw [hrun'] at hcut
      rcases hcut with ⟨q, d', hok⟩ | ⟨hline, hcolumn, hfound⟩
      · cases hok
      · exact .inr ⟨r, rfl, hfound, hline, hcolumn⟩

/-- The tokens of `döngü x { y.z = (1) }`, of which the last is the end of input. -/
def openLoop : List Token := [⟨⟨.whileWord, "döngü", ⟨0, 7, 1, 1⟩⟩, []⟩, ⟨⟨.identifier, "x", ⟨8, 9, 1, 7⟩⟩, []⟩,
  ⟨⟨.leftBrace, "\x7b", ⟨10, 11, 1, 9⟩⟩, []⟩, ⟨⟨.identifier, "y", ⟨12, 13, 1, 11⟩⟩, []⟩,
  ⟨⟨.dot, ".", ⟨13, 14, 1, 12⟩⟩, []⟩, ⟨⟨.identifier, "z", ⟨14, 15, 1, 13⟩⟩, []⟩,
  ⟨⟨.assign, "=", ⟨16, 17, 1, 15⟩⟩, []⟩, ⟨⟨.leftParen, "(", ⟨18, 19, 1, 17⟩⟩, []⟩,
  ⟨⟨.number, "1", ⟨19, 20, 1, 18⟩⟩, []⟩, ⟨⟨.rightParen, ")", ⟨20, 21, 1, 19⟩⟩, []⟩,
  ⟨⟨.rightBrace, "\x7d", ⟨22, 23, 1, 21⟩⟩, []⟩, ⟨⟨.endOfInput, [], ⟨23, 23, 1, 22⟩⟩, []⟩]

theorem parse_take_openLoop :
    (∃ p, parse openLoop = .ok p) ∧ ((∃ q, parse (openLoop.take 9) = .ok q) ∨
      ∃ r, parse (openLoop.take 9) = .error (.refused r) ∧ r.found = "end of input" ∧ r.line = 1 ∧
        r.column = 19) :=
  ⟨⟨_, rfl⟩, @parse_take openLoop _ rfl 9⟩

end Parser

end Anadil
