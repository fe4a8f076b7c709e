import Anadil.Proofs.Tree.Completeness

/-! # Expressions that stand alone

Words can be read as an expression of their own when their reading does not lean on what was read before
them. `Alone` says this of words at a level. It goes up from the parts of an expression to the whole, so it
holds of all that the grammar derives, as long as it is legal and `bu` is not in it; and words of the loosest
level that stand alone are a whole program. -/

namespace Anadil

open Grammar

mutual

/-- Whether an expression speaks of `bu`. -/
def Expr.usesSelf : Expr → Bool
  | .binary _ _ l r => l.usesSelf || r.usesSelf
  | .unary _ _ e | .member _ e _ => e.usesSelf
  | .call _ f args => f.usesSelf || exprsUseSelf args
  | .self _ => true
  | .name .. | .literal .. | .absent => false

/-- Whether `bu` stands in one of some expressions. -/
def exprsUseSelf : List Expr → Bool
  | [] => false
  | e :: es => e.usesSelf || exprsUseSelf es

end

namespace Parser

/-! ### Derivations -/

/-- An expression without `bu` that is legal somewhere stands alone on tokens. -/
def AloneOn (known : Lexicon) (level : Level) (e : Expr) (ts : List Token) : Prop :=
  ∀ ctx, e.Legal known ctx → e.usesSelf = false → Alone Context.top level e (ts.map Token.word)

/-- What is to be shown of tokens that derive an expression, or some. -/
def Rereads (known : Lexicon) (ts : List Token) : Part → Prop
  | .or e => AloneOn known .or e ts
  | .and e => AloneOn known .and e ts
  | .not e => AloneOn known .not e ts
  | .comparison e => AloneOn known .comparison e ts
  | .sum e => AloneOn known .sum e ts
  | .product e => AloneOn known .product e ts
  | .negation e => AloneOn known .negation e ts
  | .access e | .primary e => AloneOn known .access e ts
  | .args es => ∀ ctx, exprsLegal known ctx es → exprsUseSelf es = false →
    ReadsArgs Context.top es (ts.map Token.word)
  | .exprs es => ∀ ctx, exprsLegal known ctx es → exprsUseSelf es = false →
    ReadsList Context.top es (ts.map Token.word) ∧ Begins exprStarts (ts.map Token.word)
  | _ => True

section Rereads
variable {known : Lexicon} {level : Level} {e l r : Expr} {es : List Expr} {span : Span} {o t u : Token}
  {ts us : List Token}

theorem AloneOn.tighter (h : AloneOn known level.tighter e ts) : AloneOn known level e ts :=
  fun ctx hlegal hself => (h ctx hlegal hself).looser (by cases level <;> decide)

theorem AloneOn.join (hl : AloneOn known level l ts) (hop : o.kind ∈ level.operators)
    (hr : AloneOn known level.tighter r us) : AloneOn known level (.binary span o.kind l r) (ts ++ o :: us) := by
  rintro ctx ⟨-, hlegal, hlegal'⟩ hself
  obtain ⟨hself, hself'⟩ := Bool.or_eq_false_iff.mp hself
  simpa [Token.word] using (hl ctx hlegal hself).join hop (hr ctx hlegal' hself')

theorem AloneOn.lead (hop : o.kind ∈ level.leading) (h : AloneOn known level e ts) :
    AloneOn known level (.unary span o.kind e) (o :: ts) :=
  fun ctx hlegal hself => (h ctx hlegal.2 hself).lead hop

theorem AloneOn.call (h : AloneOn known .access e ts) (ht : t.kind = .leftParen) (hargs : Rereads known us (.args es))
    (hu : u.kind = .rightParen) : AloneOn known .access (.call span e es) (ts ++ t :: us ++ [u]) := by
  rintro ctx ⟨hplace, hlegal, hlegal'⟩ hself
  obtain ⟨hself, hself'⟩ := Bool.or_eq_false_iff.mp hself
  have halone : Alone Context.top .access (.call span e es) _ :=
    (h ctx hlegal hself).call (x := t.text) (y := u.text) hplace (hargs ctx hlegal' hself')
  simpa [Token.word, ht, hu] using halone

theorem AloneOn.member (h : AloneOn known .access e ts) (ht : t.kind = .dot) (hu : u.kind = .identifier) :
    AloneOn known .access (.member span e u.text) (ts ++ [t, u]) := by
  rintro ctx ⟨hlegal, hreserved, -⟩ hself
  have halone : Alone Context.top .access (.member span e u.text) _ :=
    (h ctx hlegal hself).member (x := t.text) hreserved
  simpa [Token.word, ht, hu] using halone

theorem AloneOn.parens (h : AloneOn known .or e ts) (ht : t.kind = .leftParen) (hu : u.kind = .rightParen) :
    AloneOn known .access e (t :: ts ++ [u]) := by
  intro ctx hlegal hself
  simpa [Token.word, ht, hu] using (h ctx hlegal hself).parens (x := t.text) (y := u.text)

theorem aloneOn_literal {v : Literal} (hkind : t.kind = v.word.1)
    (htext : t.kind = .string ∨ t.kind = .number → t.text = v.word.2) :
    AloneOn known .access (.literal span v) [t] :=
  fun _ hlegal _ => @alone_literal t.word span Context.top known v hlegal hkind htext

theorem aloneOn_name (ht : t.kind = .identifier) : AloneOn known .access (.name span t.text) [t] := by
  rintro ctx ⟨hmay, hknown⟩ -
  -- a name that may be used in a context may be used outside of all methods
  have htop : Context.top.MayName t.text := ⟨hmay.reserved, hmay.print, fun h => by cases h⟩
  have halone := @alone_name t.text span Context.top known ⟨htop, hknown⟩
  rwa [← ht] at halone

theorem rereads_one (h : AloneOn known .or e ts) : Rereads known ts (.exprs [e]) := by
  intro ctx hlegal hself
  have halone := h ctx hlegal.1 (Bool.or_eq_false_iff.mp hself).1
  exact ⟨halone.readsBack.one, halone.starts⟩

theorem rereads_cons (h : AloneOn known .or e ts) (ho : o.kind = .comma) (hes : Rereads known us (.exprs es)) :
    Rereads known (ts ++ o :: us) (.exprs (e :: es)) := by
  rintro ctx ⟨hlegal, hlegal'⟩ hself
  obtain ⟨hself, hself'⟩ := Bool.or_eq_false_iff.mp hself
  have halone := h ctx hlegal hself
  have hlist := halone.readsBack.cons (x := o.text) (hes ctx hlegal' hself').1
  refine ⟨by simpa [Token.word, ho] using hlist, ?_⟩
  rw [List.map_append]
  exact halone.starts.append _

theorem rereads_args (h : Rereads known ts (.exprs es)) : Rereads known ts (.args es) := by
  intro ctx hlegal hself
  obtain ⟨hlist, hstarts⟩ := h ctx hlegal hself
  exact hlist.args hstarts

/-- Each production puts expressions together in a way that can be read alone. -/
theorem rereads {part : Part} (h : Derives part ts) : Rereads known ts part := by
  induction h with
  | orJoin _ ho _ hl hr | andJoin _ ho _ hl hr | comparisonJoin _ ho _ hl hr | sumJoin _ ho _ hl hr
  | productJoin _ ho _ hl hr => exact AloneOn.join hl ho hr
  | notLead ho _ h => exact @AloneOn.lead known .not _ _ _ _ ho h
  | negationLead ho _ h => exact @AloneOn.lead known .negation _ _ _ _ (List.mem_singleton.mpr ho) h
  | or _ h => exact @AloneOn.tighter known .or _ _ h
  | and _ h => exact @AloneOn.tighter known .and _ _ h
  | not _ h => exact @AloneOn.tighter known .not _ _ h
  | comparison _ h => exact @AloneOn.tighter known .comparison _ _ h
  | sum _ h => exact @AloneOn.tighter known .sum _ _ h
  | product _ h => exact @AloneOn.tighter known .product _ _ h
  | negation _ h => exact @AloneOn.tighter known .negation _ _ h
  | access _ h => exact h
  | call _ ht _ hu h hargs => exact AloneOn.call h ht hargs hu
  | member _ ht hu h => exact AloneOn.member h ht hu
  | parens ht _ hu h => exact AloneOn.parens h ht hu
  | number ht | string ht => exact aloneOn_literal ht fun _ => rfl
  | true ht | false ht | null ht => exact aloneOn_literal ht (by simp [ht])
  | name ht => exact aloneOn_name ht
  | self => exact fun _ _ hself => by cases hself
  | noArg => exact fun _ _ _ => readsArgs_nil
  | args _ h => exact rereads_args h
  | oneExpr _ h => exact rereads_one h
  | exprs _ ho _ h hes => exact rereads_cons h ho hes
  | _ => exact trivial

end Rereads

theorem Whole.alone {known : Lexicon} {e : Expr} {ts : List Token} (h : Whole known e ts) (hself : e.usesSelf = false) :
    Alone Context.top .or e (ts.map Token.word) := by
  obtain ⟨hderives, ctx, hlegal⟩ := h
  exact rereads hderives ctx hlegal hself

/-! ### Programs -/

/-- Tokens that stand alone are a program of one statement. -/
theorem Alone.parse {e : Expr} {tokens : List Token}
    (h : Alone Context.top .or e ((tokens.takeWhile (·.kind != .endOfInput)).map Token.word)) :
    ∃ span s e', Anadil.parse tokens = .ok ⟨span, [.expression s e']⟩ ∧ e'.bare = e.bare := by
  generalize hws : (tokens.takeWhile (·.kind != .endOfInput)).map Token.word = ws at h
  -- the cursor that stands behind all tokens
  let d : Cursor := { Cursor.ofTokens tokens with rest := [] }
  have hd : d.token.kind = .endOfInput := endBehind_kind tokens
  have hc : (Cursor.ofTokens tokens).Faces ws d := ⟨_, hws, (List.append_nil _).symm, rfl⟩
  have hlen : ws.length ≤ tokens.length := by
    rw [← hws, List.length_map]
    exact (List.takeWhile_sublist _).length_le
  have hall : ∀ k ∈ exprStarts, k ≠ .semicolon ∧ k ≠ .endOfInput := by decide
  obtain ⟨fuel, hfuel, hmore⟩ : ∃ f, fuelFor tokens = f + 1 + 1 ∧ 16 * ws.length < f + 1 := by
    unfold fuelFor
    exact ⟨16 * tokens.length + 14, by omega, by omega⟩
  -- the statement, with no semicolon before it
  obtain ⟨c₁, hskip, hc₁⟩ := @skipSemicolons_ok _ d ws 0 hc fun c' hc' => (hall _ (h.starts.token hc')).1
  obtain ⟨s, e', c₂, he, hc₂, heq⟩ := h.readsBack.statement hc₁ (h.starts.token hc₁) hd hmore
  -- and nothing behind it
  obtain ⟨c₃, hskip', hc₃⟩ := @skipSemicolons_ok c₂ d [] 0 hc₂ fun c' hc' => by
    rw [hc'.token, hd]
    decide
  have hk : c₃.token.kind = .endOfInput := by rw [hc₃.token, hd]
  have hnone : statements Context.top .endOfInput (fuel + 1) c₂ = .ok [] c₃ := by
    simp only [statements, bind_ok hskip', peek_bind, if_pos hk, pure_ok]
  have hone : statements Context.top .endOfInput (fuel + 1 + 1) (Cursor.ofTokens tokens) =
      .ok [.expression s e'] c₃ := by
    simp only [statements.eq_2 _ _ (fuel + 1), bind_ok hskip, peek_bind, if_neg (hall _ (h.starts.token hc₁)).2,
      bind_ok heq, bind_ok hnone, pure_ok]
  refine ⟨programSpan (Cursor.ofTokens tokens).token [.expression s e'], s, e', ?_, he⟩
  simp only [Anadil.parse, run, program, hfuel, peek_bind, bind_ok hone, pure_ok, Reply.result]

end Parser

end Anadil
