import Anadil.Proofs.Tree.Legal

/-! # Single readings

What it means that one of the small readers succeeds, and how much of the tokens a reading takes.
`Cursor.Passes` says which tokens lie between two cursors. `ReadsAt` follows a reading with the tokens that
were passed since a reader began and the token to come in view; all larger readings are put together by its
rules. -/

namespace Anadil

namespace Parser

variable {t : Token} {expected : List Text} {u : Unit} {c c' : Cursor}

/-! ### Readers in sequence -/

section Readers
variable {α β : Type}

theorem bind_eq_ok {r : Reader α} {f : α → Reader β} {b : β} :
    (r >>= f) c = .ok b c' ↔ ∃ a c₁, r c = .ok a c₁ ∧ f a c₁ = .ok b c' := by
  show Reader.bind r f c = .ok b c' ↔ _
  unfold Reader.bind
  cases h : r c with
  | ok a c₁ =>
    constructor
    · intro h'
      exact ⟨a, c₁, rfl, h'⟩
    · rintro ⟨_, _, h', hf⟩
      cases h'
      exact hf
  | refused e trace => simp
  | spent => simp

theorem pure_eq_ok {a b : α} : (pure a : Reader α) c = .ok b c' ↔ a = b ∧ c = c' := by
  show Reply.ok a c = .ok b c' ↔ _
  simp

theorem peek_eq_ok : peek c = .ok t c' ↔ c.token = t ∧ c = c' := by
  simp [peek]

theorem advance_eq_ok : advance c = .ok t c' ↔ c.token = t ∧ c.advance = c' := by
  simp [advance]

theorem spend_ne_ok {a : α} : (spend : Reader α) c ≠ .ok a c' := by
  simp [spend]

theorem refuseAt_ne_ok {found : Text} {a : α} : (refuseAt t expected found : Reader α) c ≠ .ok a c' := by
  simp [refuseAt]

theorem refuse_ne_ok {a : α} : (refuse expected : Reader α) c ≠ .ok a c' := by
  unfold refuse
  rw [Ne, bind_eq_ok]
  rintro ⟨t, c₁, -, h⟩
  exact refuseAt_ne_ok h

theorem expect_eq_ok {kind : Kind} :
    expect kind c = .ok t c' ↔ c.token.kind = kind ∧ c.token = t ∧ c.advance = c' := by
  unfold expect
  simp only [bind_eq_ok, peek_eq_ok]
  constructor
  · rintro ⟨_, _, ⟨rfl, rfl⟩, h⟩
    split at h
    · exact ⟨‹_›, advance_eq_ok.mp h⟩
    · exact absurd h refuse_ne_ok
  · rintro ⟨hk, h⟩
    refine ⟨_, _, ⟨rfl, rfl⟩, ?_⟩
    rw [if_pos hk]
    exact advance_eq_ok.mpr h

theorem closeList_eq_ok : closeList c = .ok u c' ↔ c.token.kind = .rightParen ∧ c.advance = c' := by
  unfold closeList
  simp only [bind_eq_ok, peek_eq_ok]
  constructor
  · rintro ⟨_, _, ⟨rfl, rfl⟩, h⟩
    split at h
    · simp only [bind_eq_ok, advance_eq_ok, pure_eq_ok] at h
      obtain ⟨_, _, ⟨-, rfl⟩, -, rfl⟩ := h
      exact ⟨‹_›, rfl⟩
    · exact absurd h refuse_ne_ok
  · rintro ⟨hk, rfl⟩
    refine ⟨_, _, ⟨rfl, rfl⟩, ?_⟩
    rw [if_pos hk]
    simp only [bind_eq_ok, advance_eq_ok, pure_eq_ok]
    exact ⟨_, _, ⟨rfl, rfl⟩, trivial, rfl⟩

theorem memberName_eq_ok : memberName c = .ok t c' ↔
      c.token.kind = .identifier ∧ Python.isReserved c.token.text = false ∧ c.token = t ∧ c.advance = c' := by
  unfold memberName
  simp only [bind_eq_ok, expect_eq_ok]
  constructor
  · rintro ⟨_, _, ⟨hk, rfl, rfl⟩, h⟩
    split at h
    · exact absurd h refuseAt_ne_ok
    · rename_i hr
      exact ⟨hk, by simpa using hr, pure_eq_ok.mp h⟩
  · rintro ⟨hk, hr, h⟩
    refine ⟨_, _, ⟨hk, rfl, rfl⟩, ?_⟩
    rw [if_neg (by simp [hr])]
    exact pure_eq_ok.mpr h

theorem plainName_eq_ok {ctx : Context} (h : plainName ctx c = .ok t c') :
    c.token.kind = .identifier ∧ ctx.MayName c.token.text ∧ c.token = t ∧ c.advance = c' := by
  unfold plainName at h
  simp only [bind_eq_ok, memberName_eq_ok] at h
  obtain ⟨_, _, ⟨hk, hr, rfl, rfl⟩, h⟩ := h
  split at h
  · exact absurd h refuseAt_ne_ok
  · rename_i hprint
    split at h
    · exact absurd h refuseAt_ne_ok
    · rename_i hself
      exact ⟨hk, ⟨hr, hprint, fun hm hs => hself ⟨hs, hm⟩⟩, pure_eq_ok.mp h⟩

end Readers

/-! ### Tokens between cursors -/

/-- The tokens `used` lie between two cursors on the same tokens. -/
structure Cursor.Passes (c : Cursor) (used : List Token) (c' : Cursor) : Prop where
  rest : c.rest = used ++ c'.rest
  finish : c'.finish = c.finish

namespace Cursor.Passes
variable {c₁ c₂ : Cursor} {ts us : List Token}

theorem refl (c : Cursor) : c.Passes [] c := ⟨rfl, rfl⟩

theorem trans (h₁ : c.Passes ts c₁) (h₂ : c₁.Passes us c₂) : c.Passes (ts ++ us) c₂ where
  rest := by rw [h₁.rest, h₂.rest, List.append_assoc]
  finish := h₂.finish.trans h₁.finish

/-- The token to come is passed, unless it is the end of input, behind which nothing stands. -/
theorem advance (hf : c.finish.kind = .endOfInput) (hk : c.token.kind ≠ .endOfInput) :
    c.Passes [c.token] c.advance := by
  unfold Cursor.token at hk ⊢
  unfold Cursor.advance
  cases hr : c.rest with
  | nil =>
    rw [hr] at hk
    exact absurd hf hk
  | cons t rest => exact ⟨by rw [hr]; rfl, rfl⟩

end Cursor.Passes

theorem skipSemicolons_eq_ok (h : skipSemicolons c = .ok u c') :
    c.Passes (c.rest.takeWhile (·.kind == .semicolon)) c' := by
  simp only [skipSemicolons, Reply.ok.injEq] at h
  obtain ⟨-, rfl⟩ := h
  exact ⟨List.takeWhile_append_dropWhile.symm, rfl⟩

theorem traceStatement_eq_ok (h : traceStatement c = .ok u c') : c.Passes [] c' ∧ c'.token = c.token := by
  simp only [traceStatement, Reply.ok.injEq] at h
  obtain ⟨-, rfl⟩ := h
  exact ⟨⟨rfl, rfl⟩, rfl⟩

/-! ### Readings with the tokens passed -/

/-- The tokens `used` lie between two cursors, and the last of them is remembered. -/
structure Cursor.Moves (c : Cursor) (used : List Token) (c' : Cursor) : Prop extends c.Passes used c' where
  previous : c'.previous = used.getLast?.or c.previous

/-- A cursor that stands behind `before`, on the way through the tokens of the cursor `src`. -/
structure Cursor.Behind (c src : Cursor) (before : List Token) : Prop where
  isEnd : src.finish.kind = .endOfInput
  finish : c.finish = src.finish
  previous : ∀ t ∈ before.getLast?, c.previous = some t
  tokens : before ++ c.rest <:+ src.rest

section Cursors
variable {src c₁ : Cursor} {before used used' : List Token}

theorem Cursor.Moves.refl (c : Cursor) : c.Moves [] c := ⟨.refl c, rfl⟩

theorem Cursor.Moves.trans (h : c.Moves used c₁) (h' : c₁.Moves used' c') : c.Moves (used ++ used') c' where
  toPasses := h.toPasses.trans h'.toPasses
  previous := by rw [h'.previous, h.previous, List.getLast?_append, Option.or_assoc]

/-- The first token passed is the one that was to come. -/
theorem Cursor.Moves.head (h : c.Moves used c') (hne : used ≠ []) : used.head? = some c.token := by
  obtain ⟨t, rest, rfl⟩ := List.exists_cons_of_ne_nil hne
  rw [Cursor.token, h.rest]
  rfl

namespace Cursor.Behind

theorem advance (h : c.Behind src before) (hk : c.token.kind ≠ .endOfInput) : c.Moves [c.token] c.advance where
  toPasses := .advance (by rw [h.finish, h.isEnd]) hk
  previous := by
    cases hrest : c.rest with
    | nil => exact absurd (by simp [Cursor.token, hrest, h.finish, h.isEnd]) hk
    | cons t rest => simp [Cursor.advance, Cursor.token, hrest]

theorem moves (h : c.Behind src before) (hm : c.Moves used c') : c'.Behind src (before ++ used) where
  isEnd := h.isEnd
  finish := by rw [hm.finish, h.finish]
  previous t ht := by
    rw [List.getLast?_append] at ht
    rw [hm.previous]
    cases hlast : used.getLast? with
    | none =>
      rw [hlast, Option.none_or] at ht
      rw [Option.none_or]
      exact h.previous t ht
    | some u =>
      rw [hlast, Option.some_or] at ht
      rw [Option.some_or]
      exact ht
  tokens := by
    rw [List.append_assoc, ← hm.rest]
    exact h.tokens

theorem mem (h : c.Behind src before) (hm : c.Moves used c') : ∀ t ∈ used, t ∈ src.rest := by
  intro t ht
  refine h.tokens.subset (List.mem_append_right _ ?_)
  rw [hm.rest]
  exact List.mem_append_left _ ht

theorem token_mem (h : c.Behind src before) : c.token ∈ src.finish :: src.rest := by
  unfold Cursor.token
  cases hhead : c.rest.head? with
  | none => exact h.finish ▸ List.mem_cons_self
  | some t =>
    have hrest := (List.suffix_append _ _).trans h.tokens
    exact List.mem_cons_of_mem _ (hrest.subset (List.mem_of_head? hhead))

end Cursor.Behind

end Cursors

/-- A refusal is at a token, and says first what stands there. -/
structure Refusal.At (r : Refusal) (t : Token) : Prop where
  line : r.line = t.span.line
  column : r.column = t.span.column
  found : t.describe <+: r.found

/-- Where a reader has passed `before` and the token to come is `t`, the reader `r` gives something that has
the property together with all tokens passed, or refuses one of the tokens given. -/
def ReadsAt {α : Type} (src : Cursor) (before : List Token) (t : Token) (r : Reader α)
    (P : List Token → α → Prop) : Prop :=
  ∀ c, c.Behind src before → c.token = t →
    (∀ a c', r c = .ok a c' → ∃ used, c.Moves used c' ∧ P (before ++ used) a) ∧
      ∀ e log, r c = .refused e log → ∃ u ∈ src.finish :: src.rest, e.At u

section Rules
variable {α β : Type} {src : Cursor} {before : List Token} {r r' : Reader α} {k : α → Reader β}
  {P P' : List Token → α → Prop} {Q : List Token → β → Prop}

theorem ReadsAt.bind (h : ReadsAt src before t r P) (hk : ∀ ts a, P ts a → ∀ u, ReadsAt src ts u (k a) Q) :
    ReadsAt src before t (r >>= k) Q := by
  intro c hc ht
  obtain ⟨hok, hrefused⟩ := h c hc ht
  refine ⟨fun b c' hb => ?_, fun e log he => ?_⟩
  · obtain ⟨a, c₁, hr, hb⟩ := bind_eq_ok.mp hb
    obtain ⟨used, hm, hp⟩ := hok a c₁ hr
    obtain ⟨used', hm', hq⟩ := (hk _ a hp c₁.token c₁ (hc.moves hm) rfl).1 b c' hb
    refine ⟨used ++ used', hm.trans hm', ?_⟩
    rwa [← List.append_assoc]
  · simp only [Bind.bind, Reader.bind] at he
    cases hr : r c with
    | ok a c₁ =>
      rw [hr] at he
      obtain ⟨used, hm, hp⟩ := hok a c₁ hr
      exact (hk _ a hp c₁.token c₁ (hc.moves hm) rfl).2 e log he
    | refused e' log' =>
      rw [hr] at he
      cases he
      exact hrefused e log hr
    | spent =>
      rw [hr] at he
      cases he

theorem ReadsAt.imp (h : ReadsAt src before t r P) (himp : ∀ ts a, P ts a → P' ts a) : ReadsAt src before t r P' := by
  intro c hc ht
  obtain ⟨hok, hrefused⟩ := h c hc ht
  refine ⟨fun a c' ha => ?_, hrefused⟩
  obtain ⟨used, hm, hp⟩ := hok a c' ha
  exact ⟨used, hm, himp _ a hp⟩

/-- A reader that is called begins anew, at the token to come. -/
theorem ReadsAt.call (h : ReadsAt src [] t r P)
    (hk : ∀ us a, (us ≠ [] → us.head? = some t) → P us a → ∀ u, ReadsAt src (before ++ us) u (k a) Q) :
    ReadsAt src before t (r >>= k) Q := by
  refine .bind (P := fun ts a => ∃ us, ts = before ++ us ∧ (us ≠ [] → us.head? = some t) ∧ P us a) ?_ ?_
  · intro c hc ht
    have hnew : c.Behind src [] := ⟨hc.isEnd, hc.finish, by simp, (List.suffix_append _ _).trans hc.tokens⟩
    obtain ⟨hok, hrefused⟩ := h c hnew ht
    refine ⟨fun a c' ha => ?_, hrefused⟩
    obtain ⟨used, hm, hp⟩ := hok a c' ha
    exact ⟨used, hm, used, rfl, fun hne => ht ▸ hm.head hne, hp⟩
  · rintro _ a ⟨us, rfl, hhead, hp⟩ u
    exact hk us a hhead hp u

/-- A reader that only gives something back. -/
theorem readsAt_of_ok {f : Cursor → α} {g : Cursor → Cursor} (hr : ∀ c, r c = .ok (f c) (g c))
    (h : ∀ c, c.Behind src before → c.token = t → ∃ used, c.Moves used (g c) ∧ P (before ++ used) (f c)) :
    ReadsAt src before t r P := by
  intro c hc ht
  rw [hr c]
  refine ⟨fun a c' ha => ?_, fun e log he => by cases he⟩
  obtain ⟨rfl, rfl⟩ := Reply.ok.inj ha
  exact h c hc ht

theorem readsAt_pure {a : α} (h : P before a) : ReadsAt src before t (pure a) P :=
  readsAt_of_ok (fun _ => rfl) fun c _ _ => ⟨[], .refl c, by rwa [List.append_nil]⟩

theorem readsAt_ite {p : Prop} [Decidable p] (h : p → ReadsAt src before t r P) (h' : ¬ p → ReadsAt src before t r' P) :
    ReadsAt src before t (if p then r else r') P := by
  split
  · exact h ‹p›
  · exact h' ‹¬ p›

theorem readsAt_spend : ReadsAt src before t spend P :=
  fun _ _ _ => ⟨fun _ _ h => absurd h spend_ne_ok, fun _ _ h => by cases h⟩

theorem readsAt_peek {k : Token → Reader β} (h : t ∈ src.finish :: src.rest → ReadsAt src before t (k t) Q) :
    ReadsAt src before t (peek >>= k) Q := by
  rintro c hc rfl
  exact h hc.token_mem c hc rfl

theorem readsAt_refuseAt {u : Token} {found : Text} (hu : u ∈ src.finish :: src.rest)
    (hfound : u.describe <+: found) : ReadsAt src before t (refuseAt u expected found) P := by
  intro c hc ht
  refine ⟨fun _ _ h => absurd h refuseAt_ne_ok, fun e log he => ⟨u, hu, ?_⟩⟩
  cases he
  exact ⟨rfl, rfl, hfound⟩

theorem readsAt_refuse : ReadsAt src before t (refuse expected) P :=
  readsAt_peek fun ht => readsAt_refuseAt ht (List.prefix_refl _)

theorem readsAt_traceStatement {k : Unit → Reader β} (h : ReadsAt src before t (k ()) Q) :
    ReadsAt src before t (traceStatement >>= k) Q := by
  rintro c hc rfl
  obtain ⟨c₁, hrun, hrest, hfinish, hprevious⟩ : ∃ c₁ : Cursor, (traceStatement >>= k) c = k () c₁ ∧
    c₁.rest = c.rest ∧ c₁.finish = c.finish ∧ c₁.previous = c.previous := ⟨_, rfl, rfl, rfl, rfl⟩
  have hc₁ : c₁.Behind src before := ⟨hc.isEnd, by rw [hfinish, hc.finish], hprevious ▸ hc.previous, hrest ▸ hc.tokens⟩
  obtain ⟨hok, hrefused⟩ := h c₁ hc₁ (by rw [Cursor.token, hrest, hfinish, Cursor.token])
  rw [hrun]
  refine ⟨fun b c' hb => ?_, hrefused⟩
  obtain ⟨used, hm, hq⟩ := hok b c' hb
  exact ⟨used, ⟨⟨by rw [← hrest, hm.rest], by rw [← hfinish, hm.finish]⟩, by rw [← hprevious, hm.previous]⟩, hq⟩

theorem readsAt_advance {k : Token → Reader β} (hk : t.kind ≠ .endOfInput)
    (h : t ∈ src.rest → ∀ u, ReadsAt src (before ++ [t]) u (k t) Q) : ReadsAt src before t (advance >>= k) Q := by
  refine .bind (P := fun ts a => ts = before ++ [t] ∧ t ∈ src.rest ∧ t = a) (readsAt_of_ok (fun _ => rfl) ?_) ?_
  · rintro c hc rfl
    exact ⟨_, hc.advance hk, rfl, hc.mem (hc.advance hk) _ (List.mem_singleton_self _), rfl⟩
  · rintro _ _ ⟨rfl, hmem, rfl⟩
    exact h hmem

theorem readsAt_expect {kind : Kind} {k : Token → Reader β}
    (h : t.kind = kind → t ∈ src.rest → ∀ u, ReadsAt src (before ++ [t]) u (k t) Q)
    (hkind : kind ≠ .endOfInput := by decide) : ReadsAt src before t (expect kind >>= k) Q := by
  refine .bind (P := fun ts a => ts = before ++ [t] ∧ t ∈ src.rest ∧ t = a ∧ t.kind = kind) ?_ ?_
  · refine readsAt_peek fun _ => readsAt_ite (fun hk => ?_) fun _ => readsAt_refuse
    exact readsAt_advance (hk ▸ hkind) fun hmem _ => readsAt_pure ⟨rfl, hmem, rfl, hk⟩
  · rintro _ _ ⟨rfl, hmem, rfl, hk⟩
    exact h hk hmem

theorem readsAt_closeList :
    ReadsAt src before t closeList fun ts _ => ts = before ++ [t] ∧ t ∈ src.rest ∧ t.kind = .rightParen := by
  refine readsAt_peek fun _ => readsAt_ite (fun hk => ?_) fun _ => readsAt_refuse
  exact readsAt_advance (by rw [hk]; decide) fun hmem _ => readsAt_pure ⟨rfl, hmem, hk⟩

theorem readsAt_memberName :
    ReadsAt src before t memberName fun ts a =>
      ts = before ++ [t] ∧ t ∈ src.rest ∧ t = a ∧ t.kind = .identifier ∧ Python.isReserved t.text = false := by
  refine readsAt_expect fun hk hmem u => ?_
  refine readsAt_ite (fun _ => readsAt_refuseAt (List.mem_cons_of_mem _ hmem) (List.prefix_refl _)) fun hr => ?_
  exact readsAt_pure ⟨rfl, hmem, rfl, hk, by simpa using hr⟩

theorem readsAt_plainName {ctx : Context} :
    ReadsAt src before t (plainName ctx) fun ts a =>
      ts = before ++ [t] ∧ t ∈ src.rest ∧ t = a ∧ t.kind = .identifier ∧ ctx.MayName t.text := by
  refine readsAt_memberName.bind ?_
  rintro ts _ ⟨hts, hmem, rfl, hk, hr⟩ u
  refine readsAt_ite (fun _ => readsAt_refuseAt (List.mem_cons_of_mem _ hmem) (List.prefix_refl _)) fun hprint => ?_
  refine readsAt_ite (fun _ => readsAt_refuseAt (List.mem_cons_of_mem _ hmem) (List.prefix_refl _)) fun hself => ?_
  exact readsAt_pure ⟨hts, hmem, rfl, hk, hr, hprint, fun hm hs => hself ⟨hs, hm⟩⟩

theorem readsAt_skipSemicolons {k : Unit → Reader β}
    (h : ∀ us, (∀ t ∈ us, t.kind = .semicolon) → ∀ u, ReadsAt src (before ++ us) u (k ()) Q) :
    ReadsAt src before t (skipSemicolons >>= k) Q := by
  refine .bind (P := fun ts _ => ∃ us, ts = before ++ us ∧ ∀ t ∈ us, t.kind = .semicolon)
    (readsAt_of_ok (fun _ => rfl) fun c hc _ => ?_) ?_
  · refine ⟨_, ⟨skipSemicolons_eq_ok rfl, rfl⟩, _, rfl, fun t ht => ?_⟩
    simpa using List.all_eq_true.mp List.all_takeWhile t ht
  · rintro _ _ ⟨us, rfl, hus⟩
    exact h us hus

end Rules

/-- The reader of a level that has operators of its own. -/
theorem expr_of_ne_access {level : Level} (h : level ≠ .access) (ctx : Context) (fuel : Nat) :
    expr ctx (fuel + 1) level = (do
      let start ← peek
      if start.kind ∈ level.leading then
        let _ ← advance
        let operand ← expr ctx fuel level
        return .unary (← spanFrom start) start.kind operand
      else
        let left ← expr ctx fuel level.tighter
        chain ctx fuel level start left) := by
  rw [expr]
  exact h

end Parser

end Anadil
