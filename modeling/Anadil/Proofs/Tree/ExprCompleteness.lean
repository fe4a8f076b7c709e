import Anadil.Proofs.Tree.Retold
import Anadil.Proofs.Tree.Soundness
import Anadil.Proofs.Tree.Words

/-! # Completeness of the reading: expressions

What `Expr.words` writes is read back. A reader that faces the words of a tree succeeds, gives the tree up
to its spans, and stops behind the words, provided that what follows cannot go on with the tree. The
readers run on fuel: sixteen for each word is enough for all of them, and an expression of a looser level,
at which more readers stand inside each other, needs at most seven more than one of the tightest. -/

namespace Anadil

namespace Parser

variable {k : Kind} {x n : Text} {start : Token} {w : Word} {span : Span} {vs : List Word}

/-! ### Words before a cursor -/

/-- The tokens from `c` up to `d` say `ws`. -/
def Cursor.Faces (c : Cursor) (ws : List Word) (d : Cursor) : Prop :=
  ∃ ts, ts.map Token.word = ws ∧ c.Passes ts d

namespace Cursor.Faces
variable {c d m : Cursor} {ws : List Word}

theorem trans (h₁ : c.Faces ws m) (h₂ : m.Faces vs d) : c.Faces (ws ++ vs) d := by
  obtain ⟨ts, rfl, hp⟩ := h₁
  obtain ⟨us, rfl, hp'⟩ := h₂
  exact ⟨ts ++ us, List.map_append, hp.trans hp'⟩

theorem next (h₁ : c.Faces [] m) (h₂ : m.Faces ws d) : c.Faces ws d := h₁.trans h₂

theorem split (h : c.Faces (ws ++ vs) d) : ∃ m, c.Faces ws m ∧ m.Faces vs d := by
  obtain ⟨ts, hts, hp⟩ := h
  obtain ⟨us, us', rfl, hus, hus'⟩ := List.map_eq_append_iff.mp hts
  have hrest : c.rest = us ++ (us' ++ d.rest) := by rw [hp.rest, List.append_assoc]
  exact ⟨{ c with rest := us' ++ d.rest }, ⟨us, hus, hrest, rfl⟩, us', hus', rfl, hp.finish⟩

theorem head (h : c.Faces (w :: ws) d) : c.token.word = w ∧ c.advance.Faces ws d := by
  obtain ⟨ts, hts, hp⟩ := h
  obtain ⟨t, us, rfl, rfl, hus⟩ := List.map_eq_cons_iff.mp hts
  have hrest : c.rest = t :: (us ++ d.rest) := hp.rest
  refine ⟨by simp [Cursor.token, hrest], us, hus, ?_, ?_⟩
  · simp [Cursor.advance, hrest]
  · simp [Cursor.advance, hrest, hp.finish]

/-- The first word is that of the token to come, and the reading goes on behind it. -/
theorem uncons (h : c.Faces ((k, x) :: ws) d) :
    c.token.kind = k ∧ c.token.text = x ∧ c.advance.Faces ws d := by
  obtain ⟨hw, h⟩ := h.head
  exact ⟨congrArg Prod.fst hw, congrArg Prod.snd hw, h⟩

theorem sign (h : c.Faces (sign k :: ws) d) : c.token.kind = k ∧ c.advance.Faces ws d :=
  ⟨h.uncons.1, h.uncons.2.2⟩

theorem token (h : c.Faces [] d) : c.token = d.token := by
  obtain ⟨ts, hts, hp⟩ := h
  obtain rfl := List.map_eq_nil_iff.mp hts
  have hrest : c.rest = d.rest := hp.rest
  simp only [Cursor.token, hrest, hp.finish]

end Cursor.Faces

/-- The first word is of one of the kinds. -/
def Begins (kinds : List Kind) (ws : List Word) : Prop := ∃ w more, ws = w :: more ∧ w.1 ∈ kinds

namespace Begins
variable {kinds : List Kind} {ws : List Word}

theorem ne_nil (h : Begins kinds ws) : ws ≠ [] := by
  obtain ⟨w, more, rfl, -⟩ := h
  exact List.cons_ne_nil w more

theorem append (h : Begins kinds ws) (vs : List Word) : Begins kinds (ws ++ vs) := by
  obtain ⟨w, more, rfl, hw⟩ := h
  exact ⟨w, more ++ vs, rfl, hw⟩

theorem token (h : Begins kinds ws) {c d : Cursor} (hc : c.Faces ws d) : c.token.kind ∈ kinds := by
  obtain ⟨w, more, rfl, hw⟩ := h
  rwa [← hc.head.1] at hw

end Begins

/-! ### Readers that succeed -/

section Readers
variable {α β : Type} {c c' : Cursor}

theorem bind_ok {r : Reader α} {f : α → Reader β} {a : α} (h : r c = .ok a c') :
    (r >>= f) c = f a c' := by
  show Reader.bind r f c = f a c'
  simp only [Reader.bind, h]

theorem pure_ok (a : α) : (pure a : Reader α) c = .ok a c := rfl

theorem peek_bind {k : Token → Reader β} : (peek >>= k) c = k c.token c := rfl

theorem advance_bind {k : Token → Reader β} : (advance >>= k) c = k c.token c.advance := rfl

theorem expect_ok (h : c.token.kind = k) : expect k c = .ok c.token c.advance :=
  expect_eq_ok.mpr ⟨h, rfl, rfl⟩

theorem closeList_ok (h : c.token.kind = .rightParen) : closeList c = .ok () c.advance :=
  closeList_eq_ok.mpr ⟨h, rfl⟩

theorem spanFrom_ok (start : Token) (c : Cursor) : ∃ s, spanFrom start c = .ok s c := ⟨_, rfl⟩

theorem memberName_ok (hk : c.token.kind = .identifier) (h : Python.isReserved c.token.text = false) :
    memberName c = .ok c.token c.advance :=
  memberName_eq_ok.mpr ⟨hk, h, rfl, rfl⟩

theorem plainName_ok {ctx : Context} (hk : c.token.kind = .identifier) (h : ctx.MayName c.token.text) :
    plainName ctx c = .ok c.token c.advance := by
  have hself : ¬ (c.token.text = ("self" : Text) ∧ ctx.inMethod = true) :=
    fun hs => h.self hs.2 hs.1
  simp only [plainName, bind_ok (memberName_ok hk h.reserved), if_neg h.print, if_neg hself, pure_ok]

end Readers

/-! ### Levels -/

namespace Level
variable {level : Level}

theorem tightening {P : Level → Prop} (access : P .access)
    (looser : ∀ level, level ≠ .access → P level.tighter → P level) (level : Level) : P level := by
  have hnegation : P .negation := looser _ (by decide) access
  have hproduct : P .product := looser _ (by decide) hnegation
  have hsum : P .sum := looser _ (by decide) hproduct
  have hcomparison : P .comparison := looser _ (by decide) hsum
  have hnot : P .not := looser _ (by decide) hcomparison
  have hand : P .and := looser _ (by decide) hnot
  have hor : P .or := looser _ (by decide) hand
  cases level <;> assumption

theorem rank_tighter (h : level ≠ .access) : level.tighter.rank = level.rank + 1 := by
  cases level with
  | access => exact absurd rfl h
  | _ => rfl

theorem rank_le (level : Level) : level.rank ≤ 7 := by
  cases level <;> decide

/-- The level of a rank. -/
def ofRank : Nat → Level
  | 0 => or
  | 1 => and
  | 2 => not
  | 3 => comparison
  | 4 => sum
  | 5 => product
  | 6 => negation
  | _ => access

theorem ofRank_rank (level : Level) : ofRank level.rank = level := by
  cases level <;> rfl

theorem eq_of_rank_eq {other : Level} (h : level.rank = other.rank) : level = other := by
  rw [← ofRank_rank level, h, ofRank_rank]

/-- A token of kind `k` does not go on with an expression of the level. -/
def Stops (level : Level) (k : Kind) : Prop :=
  (∀ other : Level, level.rank ≤ other.rank → k ∉ other.operators) ∧ k ≠ .leftParen ∧ k ≠ .dot

theorem Stops.mono {other : Level} (h : level.Stops k) (hle : level.rank ≤ other.rank) :
    other.Stops k :=
  ⟨fun l hl => h.1 l (Nat.le_trans hle hl), h.2⟩

theorem Stops.tighter (h : level.Stops k) : level.tighter.Stops k :=
  h.mono (by cases level <;> decide)

/-- The kinds that stand behind a whole expression. -/
def closing : List Kind := [.semicolon, .leftBrace, .rightParen, .comma, .assign, .endOfInput]

theorem stops_of_closing (h : k ∈ closing) (level : Level) : level.Stops k := by
  have hall : ∀ k ∈ closing, (∀ other : Level, k ∉ other.operators) ∧ k ≠ .leftParen ∧ k ≠ .dot := by
    intro k hk
    simp only [closing, List.mem_cons, List.not_mem_nil, or_false] at hk
    rcases hk with rfl | rfl | rfl | rfl | rfl | rfl <;>
      exact ⟨fun other => by cases other <;> decide, by decide, by decide⟩
  exact ⟨fun other _ => (hall k h).1 other, (hall k h).2⟩

theorem ofJoining_eq (h : k ∈ level.operators) : ofJoining k = level := by
  have hall : ∀ k ∈ level.operators, ofJoining k = level := by cases level <;> decide
  exact hall k h

theorem mem_operators (h : k ∈ joiningKinds) : k ∈ (ofJoining k).operators := by
  have hall : ∀ k ∈ joiningKinds, k ∈ (ofJoining k).operators := by decide
  exact hall k h

theorem mem_leading (h : k ∈ leadingKinds) : k ∈ (ofLeading k).leading := by
  have hall : ∀ k ∈ leadingKinds, k ∈ (ofLeading k).leading := by decide
  exact hall k h

theorem ofLeading_eq (h : k ∈ level.leading) : ofLeading k = level := by
  have hall : ∀ k ∈ level.leading, ofLeading k = level := by cases level <;> decide
  exact hall k h

theorem ne_access_of_operators (h : k ∈ level.operators) : level ≠ .access := by
  rintro rfl
  cases h

theorem ne_access_of_leading (h : k ∈ level.leading) : level ≠ .access := by
  rintro rfl
  cases h

/-- An operator ends the operand before it, which is tighter. -/
theorem stops_of_mem_operators (h : k ∈ level.operators) : level.tighter.Stops k := by
  have hparts : ∀ k ∈ joiningKinds, k ≠ .leftParen ∧ k ≠ .dot := by decide
  refine ⟨fun other hle hmem => ?_, hparts k (joining_of_mem_operators k h).1⟩
  have heq : other = level := (ofJoining_eq hmem).symm.trans (ofJoining_eq h)
  rw [heq, rank_tighter (ne_access_of_operators h)] at hle
  omega

/-- A level with leading operators has no others, so what ends its operand ends the whole. -/
theorem stops_of_mem_leading {lead : Kind} (hlead : lead ∈ level.leading) (h : level.tighter.Stops k) :
    level.Stops k := by
  refine ⟨fun other hle => ?_, h.2⟩
  by_cases heq : other = level
  · have hnone : level.operators = [] := by
      cases level with
      | not => rfl
      | negation => rfl
      | _ => cases hlead
    rw [heq, hnone]
    exact List.not_mem_nil
  · have hne : level.rank ≠ other.rank := fun hr => heq (eq_of_rank_eq hr).symm
    refine h.1 other ?_
    rw [rank_tighter (ne_access_of_leading hlead)]
    omega

end Level

/-! ### Expressions that are read back

A reader of a level first reads an operand and then goes on with what stands behind it, so words of the
level are followed in two steps: `Opens` says that an expression is read and how the reader goes on from
there, whatever follows on the same level, and `ReadsBack` that it is read as a whole. -/

/-- How the reader of a level goes on behind what it has read. -/
def goOn (ctx : Context) : Level → Nat → Token → Expr → Reader Expr
  | .access, fuel, start, x => trail ctx fuel start x
  | level, fuel, start, x => chain ctx fuel level start x

/-- The words `ws` are read as `e`, and the reader of the level goes on behind them. -/
def Opens (ctx : Context) (level : Level) (e : Expr) (ws : List Word) : Prop :=
  ∀ c d fuel, c.Faces ws d → (level ≠ .access → level.tighter.Stops d.token.kind) →
    16 * ws.length ≤ fuel + level.rank →
    ∃ e' c' fuel', e'.bare = e.bare ∧ c'.Faces [] d ∧ fuel ≤ fuel' + ws.length ∧
      expr ctx fuel level c = goOn ctx level fuel' c.token e' c'

/-- The words `ws` are read as `e` where nothing goes on with them. -/
def ReadsBack (ctx : Context) (level : Level) (e : Expr) (ws : List Word) : Prop :=
  ∀ c d fuel, c.Faces ws d → level.Stops d.token.kind → 16 * ws.length ≤ fuel + level.rank →
    ∃ e' c', e'.bare = e.bare ∧ c'.Faces [] d ∧ expr ctx fuel level c = .ok e' c'

section Expressions
variable {ctx : Context} {level : Level} {e : Expr} {ws : List Word}

/-- Where no operator of the level follows, the chain ends. -/
theorem chain_stops {c : Cursor} {fuel : Nat} {x : Expr} (hfuel : 0 < fuel)
    (h : c.token.kind ∉ level.operators) : chain ctx fuel level start x c = .ok x c := by
  obtain ⟨fuel, rfl⟩ := Nat.exists_eq_add_of_lt hfuel
  simp only [Nat.zero_add, chain, peek_bind, if_neg h, pure_ok]

/-- Where neither an argument list nor a field follows, the trail ends. -/
theorem trail_stops {c : Cursor} {fuel : Nat} {x : Expr} (hfuel : 0 < fuel)
    (hp : c.token.kind ≠ .leftParen) (hd : c.token.kind ≠ .dot) : trail ctx fuel start x c = .ok x c := by
  obtain ⟨fuel, rfl⟩ := Nat.exists_eq_add_of_lt hfuel
  simp only [Nat.zero_add, trail, peek_bind, pure_ok]

theorem goOn_stops {c : Cursor} {fuel : Nat} {x : Expr} (hfuel : 0 < fuel)
    (h : level.Stops c.token.kind) : goOn ctx level fuel start x c = .ok x c := by
  cases level with
  | access => exact trail_stops hfuel h.2.1 h.2.2
  | _ => exact chain_stops hfuel (h.1 _ (Nat.le_refl _))

theorem goOn_chain {fuel : Nat} {x : Expr} (h : level ≠ .access) :
    goOn ctx level fuel start x = chain ctx fuel level start x := by
  cases level with
  | access => exact absurd rfl h
  | _ => rfl

theorem Opens.readsBack (h : Opens ctx level e ws) (hne : ws ≠ []) : ReadsBack ctx level e ws := by
  intro c d fuel hc hstops hfuel
  have hlen : 0 < ws.length := List.length_pos_iff.mpr hne
  have hrank := level.rank_le
  obtain ⟨e', c', fuel', he, hc', hcost, heq⟩ := h c d fuel hc (fun _ => hstops.tighter) hfuel
  refine ⟨e', c', he, hc', ?_⟩
  rw [heq]
  exact goOn_stops (by omega) (by rw [hc'.token]; exact hstops)

/-- The reader of a level whose operators do not lead the words asks the reader of the next level. -/
theorem expr_descends {c : Cursor} {fuel : Nat} (hlevel : level ≠ .access)
    (hlead : c.token.kind ∉ level.leading) :
    expr ctx (fuel + 1) level c =
      (do
        let left ← expr ctx fuel level.tighter
        chain ctx fuel level c.token left : Reader Expr) c := by
  rw [expr_of_ne_access hlevel, peek_bind, if_neg hlead]

/-- No operator of the level comes first. -/
def Unled (level : Level) (ws : List Word) : Prop := ∀ w ∈ ws.head?, w.1 ∉ level.leading

theorem ReadsBack.opens (h : ReadsBack ctx level.tighter e ws) (hlevel : level ≠ .access)
    (hne : ws ≠ []) (hlead : Unled level ws) : Opens ctx level e ws := by
  intro c d fuel hc hstops hfuel
  have hlen : 0 < ws.length := List.length_pos_iff.mpr hne
  have hrank := level.rank_le
  obtain ⟨fuel, rfl⟩ : ∃ f, fuel = f + 1 := ⟨fuel - 1, by omega⟩
  have hfuel' : 16 * ws.length ≤ fuel + level.tighter.rank := by
    rw [Level.rank_tighter hlevel]
    omega
  obtain ⟨e', c', he, hc', heq⟩ := h c d fuel hc (hstops hlevel) hfuel'
  have hfirst : c.token.kind ∉ level.leading := by
    cases ws with
    | nil => exact absurd rfl hne
    | cons w ws =>
      have hw := hlead w rfl
      rwa [← hc.head.1] at hw
  refine ⟨e', c', fuel, he, hc', by omega, ?_⟩
  rw [expr_descends hlevel hfirst, bind_ok heq, goOn_chain hlevel]

/-- Words that open at a level open at every looser one that none of them leads. -/
theorem Opens.looser {own : Level} (h : Opens ctx own e ws) (hne : ws ≠ [])
    (hlead : ∀ level : Level, level.rank < own.rank → Unled level ws) (hle : level.rank ≤ own.rank) :
    Opens ctx level e ws := by
  induction level using Level.tightening with
  | access =>
    have heq : own = .access := Level.eq_of_rank_eq (Nat.le_antisymm own.rank_le hle)
    rwa [heq] at h
  | looser level hlevel ih =>
    by_cases heq : level.rank = own.rank
    · rwa [Level.eq_of_rank_eq heq]
    · have hlt : level.rank < own.rank := Nat.lt_of_le_of_ne hle heq
      have hnext := ih (by rw [Level.rank_tighter hlevel]; exact hlt)
      exact (hnext.readsBack hne).opens hlevel hne (hlead level hlt)

/-! ### Operands -/

theorem expr_access {c c' : Cursor} {fuel : Nat} {x : Expr} (h : primary ctx fuel c = .ok x c') :
    expr ctx (fuel + 1) .access c = trail ctx fuel c.token x c' := by
  simp only [expr, peek_bind, bind_ok h]

theorem unled_cons (h : w.1 ∉ leadingKinds) (level : Level) (ws : List Word) : Unled level (w :: ws) := by
  intro v hv hlead
  obtain rfl := Option.some.inj hv
  exact h (Level.leading_of_mem_leading _ hlead).1

/-- In front of what closes an expression it is read back whole. -/
theorem ReadsBack.whole (h : ReadsBack ctx .or e ws) {c d : Cursor} {fuel : Nat} (hc : c.Faces ws d)
    (hd : d.token.kind = k) (hfuel : 16 * ws.length ≤ fuel) (hk : k ∈ Level.closing := by decide) :
    ∃ e' c', e'.bare = e.bare ∧ c'.Faces [] d ∧ expr ctx fuel .or c = .ok e' c' :=
  h c d fuel hc (Level.stops_of_closing (hd ▸ hk) _) hfuel

theorem ReadsBack.parens {y : Text} (h : ReadsBack ctx .or e ws) :
    Opens ctx .access e ((.leftParen, x) :: ws ++ [(.rightParen, y)]) := by
  intro c d fuel hc _ hfuel
  simp only [List.length_cons, List.length_append, List.length_nil, Level.rank] at hfuel ⊢
  obtain ⟨fuel, rfl⟩ : ∃ f, fuel = f + 2 := ⟨fuel - 2, by omega⟩
  obtain ⟨hl, -, hc₁⟩ := hc.uncons
  obtain ⟨m, hm, hd⟩ := hc₁.split
  have hless : 16 * ws.length ≤ fuel := by omega
  obtain ⟨e', c₂, he, hc₂, heq⟩ := h.whole hm hd.uncons.1 hless
  obtain ⟨hr, -, hc₃⟩ := (hc₂.next hd).uncons
  have hprimary : primary ctx (fuel + 1) c = .ok e' c₂.advance := by
    simp only [primary, peek_bind, hl, advance_bind, bind_ok heq, bind_ok (expect_ok hr), pure_ok]
  exact ⟨e', c₂.advance, fuel + 1, he, hc₃, by omega, expr_access hprimary⟩

variable {known : Lexicon}

/-! ### Expressions by their outermost part -/

/-- An operator joins what was opened on its left with what is read on its right. -/
theorem Opens.join {op : Kind} {l r : Expr}
    (hmem : op ∈ level.operators) (hl : Opens ctx level l ws) (hr : ReadsBack ctx level.tighter r vs) :
    Opens ctx level (.binary span op l r) (ws ++ (op, x) :: vs) := by
  have hlevel := Level.ne_access_of_operators hmem
  intro c d fuel hc hstops hfuel
  simp only [List.length_append, List.length_cons] at hfuel ⊢
  obtain ⟨m, hm, hd⟩ := hc.split
  have hm_stops : level.tighter.Stops m.token.kind := by
    rw [hd.uncons.1]
    exact Level.stops_of_mem_operators hmem
  obtain ⟨l', c₁, fuel₁, hl', hc₁, hcost, heq⟩ := hl c m fuel hm (fun _ => hm_stops) (by omega)
  obtain ⟨hk, -, hc₂⟩ := (hc₁.next hd).uncons
  have hrank := level.rank_le
  obtain ⟨fuel₁, rfl⟩ : ∃ f, fuel₁ = f + 1 := ⟨fuel₁ - 1, by omega⟩
  obtain ⟨r', c₃, hr', hc₃, heq'⟩ :=
    hr _ d fuel₁ hc₂ (hstops hlevel) (by rw [Level.rank_tighter hlevel]; omega)
  obtain ⟨s, hs⟩ := spanFrom_ok c.token c₃
  refine ⟨.binary s op l' r', c₃, fuel₁, by simp only [Expr.retold, hl', hr'], hc₃, by omega, ?_⟩
  rw [heq, goOn_chain hlevel, goOn_chain hlevel]
  simp only [chain, peek_bind, hk, if_pos hmem, advance_bind, bind_ok heq', bind_ok hs]

theorem ReadsBack.lead {op : Kind} (hmem : op ∈ level.leading)
    (h : ReadsBack ctx level e ws) : Opens ctx level (.unary span op e) ((op, x) :: ws) := by
  have hlevel := Level.ne_access_of_leading hmem
  intro c d fuel hc hstops hfuel
  simp only [List.length_cons] at hfuel ⊢
  have hrank := level.rank_le
  obtain ⟨fuel, rfl⟩ : ∃ f, fuel = f + 1 := ⟨fuel - 1, by omega⟩
  obtain ⟨hk, -, hc₁⟩ := hc.uncons
  have hd := Level.stops_of_mem_leading hmem (hstops hlevel)
  obtain ⟨e', c₂, he, hc₂, heq⟩ := h _ d fuel hc₁ hd (by omega)
  obtain ⟨s, hs⟩ := spanFrom_ok c.token c₂
  refine ⟨.unary s op e', c₂, fuel, by simp only [Expr.retold, he], hc₂, by omega, ?_⟩
  have hexpr : expr ctx (fuel + 1) level c = .ok (.unary s op e') c₂ := by
    have hlead : c.token.kind ∈ level.leading := hk ▸ hmem
    rw [expr_of_ne_access hlevel, peek_bind, if_pos hlead]
    simp only [advance_bind, bind_ok heq, bind_ok hs, hk, pure_ok]
  rw [hexpr, goOn_stops (by omega) (by rw [hc₂.token]; exact hd)]

theorem opens_token (h : ∀ c fuel, c.token.word = w → ∃ e', e'.bare = e.bare ∧
      primary ctx (fuel + 1) c = .ok e' c.advance) : Opens ctx .access e [w] := by
  intro c d fuel hc _ hfuel
  simp only [List.length_cons, List.length_nil, Level.rank] at hfuel ⊢
  obtain ⟨fuel, rfl⟩ : ∃ f, fuel = f + 2 := ⟨fuel - 2, by omega⟩
  obtain ⟨hw, hc₁⟩ := hc.head
  obtain ⟨e', he, hprimary⟩ := h c fuel hw
  exact ⟨e', c.advance, fuel + 1, he, hc₁, by omega, expr_access hprimary⟩

theorem opens_name (hlegal : (Expr.name span n).Legal known ctx) :
    Opens ctx .access (.name span n) [(.identifier, n)] := by
  refine opens_token fun c fuel hw => ⟨.name c.token.span c.token.text, ?_, ?_⟩
  · simp only [Expr.retold, show c.token.text = n from congrArg Prod.snd hw]
  · have hk : c.token.kind = .identifier := congrArg Prod.fst hw
    have hmay : ctx.MayName c.token.text := by
      rw [show c.token.text = n from congrArg Prod.snd hw]
      exact hlegal.1
    simp only [primary, peek_bind, hk, bind_ok (plainName_ok hk hmay), pure_ok]

theorem opens_self (hlegal : (Expr.self span).Legal known ctx) :
    Opens ctx .access (.self span) [(.thisWord, x)] := by
  refine opens_token fun c fuel hw => ⟨.self c.token.span, rfl, ?_⟩
  have hk : c.token.kind = .thisWord := congrArg Prod.fst hw
  have hm : ctx.inMethod = true := hlegal
  simp only [primary, peek_bind, hk, if_pos hm, advance_bind, pure_ok]

/-- A literal is read from a word of its kind, whose text counts only for strings and numbers. -/
theorem opens_literal {v : Literal} (hlegal : (Expr.literal span v).Legal known ctx)
    (hkind : w.1 = v.word.1) (htext : w.1 = .string ∨ w.1 = .number → w.2 = v.word.2) :
    Opens ctx .access (.literal span v) [w] := by
  refine opens_token fun c fuel hw => ⟨.literal c.token.span v, rfl, ?_⟩
  have hk : c.token.kind = v.word.1 := (congrArg Prod.fst hw).trans hkind
  have ht : c.token.text = w.2 := congrArg Prod.snd hw
  cases v with
  | other => exact absurd hlegal id
  | boolean b =>
    cases b <;>
      simp only [Literal.word, sign] at hk <;>
      simp only [primary, peek_bind, hk, advance_bind, pure_ok]
  | null =>
    simp only [Literal.word, sign] at hk
    simp only [primary, peek_bind, hk, advance_bind, pure_ok]
  | string | number =>
    simp only [Literal.word] at hk hkind htext
    simp only [hkind, reduceCtorEq, or_true, true_or, forall_const] at htext
    simp only [primary, peek_bind, hk, ht, htext, advance_bind, pure_ok]

theorem Opens.member (h : Opens ctx .access e ws) (hreserved : Python.isReserved n = false) :
    Opens ctx .access (.member span e n) (ws ++ [(.dot, x), (.identifier, n)]) := by
  intro c d fuel hc _ hfuel
  simp only [List.length_append, List.length_cons, List.length_nil] at hfuel ⊢
  obtain ⟨m, hm, hd⟩ := hc.split
  obtain ⟨e', c₁, fuel₁, he, hc₁, hcost, heq⟩ := h c m fuel hm (fun hne => absurd rfl hne) (by omega)
  obtain ⟨hdot, -, hc₂⟩ := (hc₁.next hd).uncons
  obtain ⟨hk, htext, hc₃⟩ := hc₂.uncons
  simp only [Level.rank] at hfuel
  obtain ⟨fuel₁, rfl⟩ : ∃ f, fuel₁ = f + 1 := ⟨fuel₁ - 1, by omega⟩
  obtain ⟨s, hs⟩ := spanFrom_ok c.token c₁.advance.advance
  have hname := memberName_ok hk (by rw [htext]; exact hreserved)
  refine ⟨.member s e' n, c₁.advance.advance, fuel₁, by simp only [Expr.retold, he], hc₃, by omega, ?_⟩
  rw [heq]
  simp only [goOn, trail, peek_bind, hdot, advance_bind, bind_ok hname, bind_ok hs, htext]

/-! ### Arguments -/

/-- The kinds of words that an expression can begin with. -/
def exprStarts : List Kind := [
    .number, .string, .trueWord, .falseWord, .nullWord, .thisWord, .identifier, .leftParen, .notWord,
    .bang, .minus]

/-- The words `ws` are read as expressions with commas between them, in front of a parenthesis. -/
def ReadsList (ctx : Context) (es : List Expr) (ws : List Word) : Prop :=
  ∀ c d fuel, c.Faces ws d → d.token.kind = .rightParen → 16 * ws.length < fuel →
    ∃ es' c', exprsRetold .bare es' = exprsRetold .bare es ∧ c'.Faces [] d ∧ expressions ctx fuel c = .ok es' c'

/-- The words `ws` are read as the arguments of a call. -/
def ReadsArgs (ctx : Context) (es : List Expr) (ws : List Word) : Prop :=
  ∀ c d fuel, c.Faces ws d → d.token.kind = .rightParen → 16 * ws.length + 1 < fuel →
    ∃ es' c', exprsRetold .bare es' = exprsRetold .bare es ∧ c'.Faces [] d ∧ arguments ctx fuel c = .ok es' c'

theorem ReadsBack.one (h : ReadsBack ctx .or e ws) : ReadsList ctx [e] ws := by
  intro c d fuel hc hd hfuel
  obtain ⟨fuel, rfl⟩ : ∃ f, fuel = f + 1 := ⟨fuel - 1, by omega⟩
  obtain ⟨e', c₁, he', hc₁, heq⟩ := h.whole hc hd (Nat.le_of_lt_succ hfuel)
  have hsep : c₁.token.kind ≠ .comma := by
    rw [hc₁.token, hd]
    decide
  refine ⟨[e'], c₁, by simp only [exprsRetold, he'], hc₁, ?_⟩
  simp only [expressions, bind_ok heq, peek_bind, if_neg hsep, pure_ok]

theorem ReadsBack.cons {es : List Expr} (h : ReadsBack ctx .or e ws)
    (hes : ReadsList ctx es vs) : ReadsList ctx (e :: es) (ws ++ (.comma, x) :: vs) := by
  intro c d fuel hc hd hfuel
  rw [List.length_append, List.length_cons] at hfuel
  obtain ⟨fuel, rfl⟩ : ∃ f, fuel = f + 1 := ⟨fuel - 1, by omega⟩
  obtain ⟨m, hm, hmore⟩ := hc.split
  have hless : 16 * ws.length ≤ fuel := by omega
  obtain ⟨e', c₁, he', hc₁, heq⟩ := h.whole hm hmore.uncons.1 hless
  obtain ⟨hsep, -, hc₂⟩ := (hc₁.next hmore).uncons
  obtain ⟨es', c₃, hes', hc₃, heq'⟩ := hes _ d fuel hc₂ hd (by omega)
  refine ⟨e' :: es', c₃, by simp only [exprsRetold, he', hes'], hc₃, ?_⟩
  simp only [expressions, bind_ok heq, peek_bind, if_pos hsep, advance_bind, bind_ok heq', pure_ok]

theorem readsArgs_nil : ReadsArgs ctx [] [] := by
  intro c d fuel hc hd hfuel
  obtain ⟨fuel, rfl⟩ : ∃ f, fuel = f + 1 := ⟨fuel - 1, by omega⟩
  have hk : c.token.kind = .rightParen := by
    rw [hc.token, hd]
  exact ⟨[], c, rfl, hc, by simp only [arguments, peek_bind, if_pos hk, pure_ok]⟩

theorem ReadsList.args {es : List Expr} (h : ReadsList ctx es ws) (hstarts : Begins exprStarts ws) :
    ReadsArgs ctx es ws := by
  intro c d fuel hc hd hfuel
  obtain ⟨fuel, rfl⟩ : ∃ f, fuel = f + 1 := ⟨fuel - 1, by omega⟩
  obtain ⟨es', c', hes, hc', heq⟩ := h c d fuel hc hd (by omega)
  have hk : c.token.kind ≠ .rightParen := by
    have hall : ∀ k ∈ exprStarts, k ≠ .rightParen := by decide
    exact hall _ (hstarts.token hc)
  exact ⟨es', c', hes, hc', by simp only [arguments, peek_bind, if_neg hk, heq]⟩

/-- Arguments behind a place open a call. -/
theorem Opens.call {y : Text} {args : List Expr} (h : Opens ctx .access e ws)
    (hplace : e.isPlace = true) (hargs : ReadsArgs ctx args vs) :
    Opens ctx .access (.call span e args) (ws ++ ((.leftParen, x) :: vs ++ [(.rightParen, y)])) := by
  intro c d fuel hc _ hfuel
  simp only [List.length_append, List.length_cons, List.length_nil, Level.rank] at hfuel ⊢
  obtain ⟨m, hm, hd⟩ := hc.split
  obtain ⟨e', c₁, fuel₁, he, hc₁, hcost, heq⟩ :=
    h c m fuel hm (fun hne => absurd rfl hne) (by simp only [Level.rank]; omega)
  obtain ⟨hl, -, hc₂⟩ := (hc₁.next hd).uncons
  obtain ⟨m', hm', hd'⟩ := hc₂.split
  obtain ⟨fuel₁, rfl⟩ : ∃ f, fuel₁ = f + 1 := ⟨fuel₁ - 1, by omega⟩
  obtain ⟨as, c₃, has, hc₃, heq'⟩ := hargs _ m' fuel₁ hm' hd'.uncons.1 (by omega)
  obtain ⟨hr, -, hc₄⟩ := (hc₃.next hd').uncons
  obtain ⟨s, hs⟩ := spanFrom_ok c.token c₃.advance
  have hplace' : e'.isPlace = true := (Expr.isPlace_congr he).trans hplace
  refine ⟨.call s e' as, c₃.advance, fuel₁, by simp only [Expr.retold, he, has], hc₄, by omega, ?_⟩
  rw [heq]
  simp only [goOn, trail, peek_bind, hl, if_pos hplace', advance_bind, bind_ok heq',
    bind_ok (closeList_ok hr), bind_ok hs]

/-! ### Words that stand alone -/

/-- The words `ws` begin as an expression can, are led by no operator of a looser level, and open `e`. -/
structure Alone (ctx : Context) (level : Level) (e : Expr) (ws : List Word) : Prop where
  starts : Begins exprStarts ws
  unled : ∀ other : Level, other.rank < level.rank → Unled other ws
  opens : Opens ctx level e ws

namespace Alone
variable {own : Level} {l r : Expr} {op : Kind} {y : Text}

theorem readsBack (h : Alone ctx level e ws) : ReadsBack ctx level e ws := h.opens.readsBack h.starts.ne_nil

theorem looser (h : Alone ctx own e ws) (hle : level.rank ≤ own.rank) : Alone ctx level e ws where
  starts := h.starts
  unled other hother := h.unled other (Nat.lt_of_lt_of_le hother hle)
  opens := h.opens.looser h.starts.ne_nil h.unled hle

theorem loosest (h : Alone ctx own e ws) : Alone ctx .or e ws := h.looser (Nat.zero_le _)

theorem extend (h : Alone ctx level l ws) (hopens : Opens ctx level e (ws ++ vs)) :
    Alone ctx level e (ws ++ vs) := by
  refine ⟨h.starts.append vs, fun other hother => ?_, hopens⟩
  obtain ⟨w, more, rfl, -⟩ := h.starts
  exact h.unled other hother

theorem join (hop : op ∈ level.operators) (hl : Alone ctx level l ws) (hr : Alone ctx level.tighter r vs) :
    Alone ctx level (.binary span op l r) (ws ++ (op, x) :: vs) :=
  hl.extend (hl.opens.join hop hr.readsBack)

theorem lead (hop : op ∈ level.leading) (h : Alone ctx level e ws) :
    Alone ctx level (.unary span op e) ((op, x) :: ws) where
  starts := by
    have hall : ∀ k ∈ leadingKinds, k ∈ exprStarts := by decide
    exact ⟨_, ws, rfl, hall op (Level.leading_of_mem_leading op hop).1⟩
  unled other hother w hw hmem := by
    obtain rfl := Option.some.inj hw
    have heq : other = level := (Level.ofLeading_eq hmem).symm.trans (Level.ofLeading_eq hop)
    rw [heq] at hother
    exact absurd hother (Nat.lt_irrefl _)
  opens := h.readsBack.lead hop

theorem member (h : Alone ctx .access e ws) (hn : Python.isReserved n = false) :
    Alone ctx .access (.member span e n) (ws ++ [(.dot, x), (.identifier, n)]) :=
  h.extend (h.opens.member hn)

theorem call {args : List Expr} (h : Alone ctx .access e ws) (hplace : e.isPlace = true)
    (hargs : ReadsArgs ctx args vs) :
    Alone ctx .access (.call span e args) (ws ++ ((.leftParen, x) :: vs ++ [(.rightParen, y)])) :=
  h.extend (h.opens.call hplace hargs)

/-- Words that open an expression of the tightest level and begin with no operator. -/
theorem of_access (hopens : Opens ctx .access e (w :: ws)) (hw : w.1 ∈ exprStarts)
    (hlead : w.1 ∉ leadingKinds) : Alone ctx .access e (w :: ws) where
  starts := ⟨w, ws, rfl, hw⟩
  unled other _ := unled_cons hlead other ws
  opens := hopens

theorem parens (h : Alone ctx .or e ws) : Alone ctx .access e ((.leftParen, x) :: ws ++ [(.rightParen, y)]) :=
  of_access h.readsBack.parens (show Kind.leftParen ∈ exprStarts by decide)
    (show Kind.leftParen ∉ leadingKinds by decide)

theorem operand (h : Alone ctx own e ws) (level : Level) : Alone ctx level e (operand level own ws) := by
  unfold Anadil.operand
  split
  · exact h.loosest.parens.looser level.rank_le
  · exact h.looser (Nat.le_of_not_lt ‹_›)

end Alone

theorem alone_name (hlegal : (Expr.name span n).Legal known ctx) :
    Alone ctx .access (.name span n) [(.identifier, n)] :=
  .of_access (opens_name hlegal) (show Kind.identifier ∈ exprStarts by decide)
    (show Kind.identifier ∉ leadingKinds by decide)

/-- A literal is read from its one word. -/
theorem alone_literal {v : Literal} (hlegal : (Expr.literal span v).Legal known ctx)
    (hkind : w.1 = v.word.1) (htext : w.1 = .string ∨ w.1 = .number → w.2 = v.word.2) :
    Alone ctx .access (.literal span v) [w] := by
  have hall : ∀ k ∈ [Kind.string, .number, .trueWord, .falseWord, .nullWord], k ∈ exprStarts ∧ k ∉ leadingKinds := by
    decide
  have hmem : w.1 ∈ [Kind.string, .number, .trueWord, .falseWord, .nullWord] := by
    rw [hkind]
    cases v with
    | string | number | null => simp [Literal.word, sign]
    | boolean b => cases b <;> decide
    | other => exact absurd hlegal id
  exact .of_access (opens_literal hlegal hkind htext) (hall _ hmem).1 (hall _ hmem).2

theorem argWords_cons (e : Expr) (es : List Expr) :
    argWords (e :: es) = e.words ++ if es = [] then [] else sign .comma :: argWords es := by
  cases es <;> simp [argWords]

theorem readsList_argWords {args : List Expr} (hne : args ≠ [])
    (h : ∀ e ∈ args, Alone ctx e.level e e.words) : ReadsList ctx args (argWords args) := by
  induction args with
  | nil => exact absurd rfl hne
  | cons e args ih =>
    obtain ⟨he, h⟩ := List.forall_mem_cons.mp h
    rw [argWords_cons]
    by_cases hargs : args = []
    · rw [if_pos hargs, List.append_nil, hargs]
      exact he.loosest.readsBack.one
    · rw [if_neg hargs]
      exact he.loosest.readsBack.cons (ih hargs h)

theorem readsArgs_argWords {args : List Expr} (h : ∀ e ∈ args, Alone ctx e.level e e.words) :
    ReadsArgs ctx args (argWords args) := by
  cases args with
  | nil => exact readsArgs_nil
  | cons e args =>
    have hlist := readsList_argWords (List.cons_ne_nil e args) h
    rw [argWords_cons] at hlist ⊢
    exact hlist.args ((h e List.mem_cons_self).starts.append _)

theorem alone (hlegal : e.Legal known ctx) : Alone ctx e.level e e.words := by
  induction e using Expr.induct with
  | binary span op l r ihl ihr =>
    obtain ⟨hop, hl, hr⟩ := hlegal
    exact .join (Level.mem_operators hop) ((ihl hl).operand _) ((ihr hr).operand _)
  | unary span op e ih => exact .lead (Level.mem_leading hlegal.1) ((ih hlegal.2).operand _)
  | call span f args ihf ihargs =>
    obtain ⟨hplace, hf, hargs⟩ := hlegal
    rw [exprsLegal_iff] at hargs
    exact ((ihf hf).operand .access).call hplace (readsArgs_argWords fun a ha => ihargs a ha (hargs a ha))
  | member span o n ih => exact ((ih hlegal.1).operand .access).member hlegal.2.1
  | name span n => exact alone_name hlegal
  | self span => exact .of_access (opens_self hlegal) (by decide) (by decide)
  | literal span v => exact alone_literal hlegal rfl fun _ => rfl
  | absent => exact absurd hlegal id

theorem readsBack (hlegal : e.Legal known ctx) : ReadsBack ctx .or e e.words := (alone hlegal).loosest.readsBack

end Expressions

end Parser

end Anadil
