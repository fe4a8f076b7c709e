import Anadil.Proofs.Token.Positions
import Anadil.Proofs.Tree.Seats

/-! # Where the lexer stops

A token, a flaw and the end of a source all stand behind what was passed before them, and none of them
starts with white space. A flaw stands at the character that it is about. -/

namespace Anadil

variable {c : Cell} {source : Text} {tokens : List Token}

/-- A place of a source where it ends, or where something other than white space stands. -/
def Place.Stops (source : Text) (p : Place) : Prop :=
  ∃ front rest, source = front ++ rest ∧ p = Place.behind front ∧ ∀ g ∈ rest.head?, Text.isSpace g.seen = false

/-- A span starts in a place. -/
structure Span.StartsIn (s : Span) (p : Place) : Prop where
  start : s.start = p.offset
  line : s.line = p.line
  column : s.column = p.column

namespace Lexer

/-- What a piece with a flaw starts with. -/
inductive Flaw.StartsWith : Flaw → Option Char → Prop
  | unexpected (c : Char) : StartsWith (.unexpected c) (some c)
  | unterminated : StartsWith .unterminated (some '"')
  | compatibility {c : Char} (h : isNameStart c = true) (name : Text) : StartsWith (.compatibility name) (some c)

/-- Behind what was passed stands no white space, but a character of `P`, or the end. -/
def StopsAt (P : Option Char → Prop) (start : Place) (cells : List Cell) (p : Place) : Prop :=
  ∃ passed rest, cells = passed ++ rest ∧ p = start.afterAll passed ∧
    (∀ c ∈ rest.head?, Text.isSpace c.seen = false) ∧ P (rest.head?.map Cell.seen)

section StopsAt
variable {P : Option Char → Prop} {p q r : Place} {cells rest passed : List Cell}

theorem stopsAt_nil (h : P none) (p : Place) : StopsAt P p [] p := ⟨[], [], rfl, rfl, by simp, h⟩

theorem stopsAt_cons (h : Text.isSpace c.seen = false) (hc : P (some c.seen)) (p : Place)
    (cells : List Cell) : StopsAt P p (c :: cells) p :=
  ⟨[], c :: cells, rfl, rfl, by simpa using h, hc⟩

theorem StopsAt.behind (h : StopsAt P q rest r) (hcells : cells = passed ++ rest) (hq : q = p.afterAll passed) :
    StopsAt P p cells r := by
  obtain ⟨passed', rest', rfl, rfl, hrest⟩ := h
  exact ⟨passed ++ passed', rest', by rw [hcells, List.append_assoc], by rw [hq, Place.afterAll_append], hrest⟩

theorem munch_space (h : Text.isSpace c.seen = true) (cells : List Cell) :
    munch c cells = .piece .space (run Text.isSpace cells) := by
  simp [munch, h]

theorem isSpace_of_munch (cells : List Cell) (h : ∀ kind more, munch c cells ≠ .piece kind more) :
    Text.isSpace c.seen = false :=
  Bool.eq_false_iff.mpr fun hspace => h _ _ (munch_space hspace cells)

theorem Piece.stopsAt {kind : Kind} {front : List Cell} (h : Piece kind front rest) (hkind : kind.isTrivia = false)
    (p : Place) : StopsAt (fun _ => True) p (front ++ rest) p := by
  obtain ⟨c, cs, rfl, -, hspace⟩ := h.shape.head
  refine stopsAt_cons (hspace ?_) trivial p (cs ++ rest)
  rintro rfl
  cases hkind

theorem seen_of_unclosed {cells : List Cell} {more : Nat} (h : munch c cells = .unclosed more) :
    c.seen = '"' := by
  refine Decidable.byContradiction fun hquote => ?_
  have hne : (c.seen == '"') = false := beq_eq_false_iff_ne.mpr hquote
  unfold munch at h
  dsimp only at h
  rw [hne] at h
  grind

/-- A piece that is no token starts like a name. -/
theorem Piece.startsWith {kind : Kind} {cs : List Cell} (h : Piece kind (c :: cs) rest) {trivia : List Lexeme}
    {flaw : Flaw} (hflaw : finish (lexeme kind p (c :: cs)) trivia = .error flaw) : flaw.StartsWith (some c.seen) := by
  unfold finish at hflaw
  split at hflaw
  · rename_i hkind
    obtain rfl : kind = .identifier := hkind
    dsimp only at hflaw
    split at hflaw
    · cases hflaw
      obtain ⟨d, ds, heq, hd, -⟩ := h.shape.of_identifier
      obtain ⟨rfl, -⟩ := List.cons.inj heq
      exact .compatibility hd _
    · cases hflaw
  · cases hflaw
  · cases hflaw

end StopsAt

section Sources
variable {name : Text} {trivia : List Lexeme} {p : Place} {cells : List Cell} {ts : List Token} {e : Refusal}

/-- A look at the source that finds a flaw stops at it. -/
theorem next_eq_error (h : (next name trivia p cells).outcome = .error e) :
    StopsAt e.flaw.StartsWith p cells e.place := by
  fun_induction next name trivia p cells with
  | case1 trivia p => cases h
  | case2 trivia p c cells kind more hmunch piece log p' hkind ih =>
    refine (ih h).behind ?_ rfl
    rw [List.cons_append, List.take_append_drop]
  | case3 trivia p c cells kind more hmunch piece log p' hkind =>
    have hpiece : Piece kind (c :: cells.take more) (cells.drop more) := ⟨c, cells, more, hmunch, rfl, rfl⟩
    obtain ⟨flaw, hfinish, rfl⟩ := mapError_eq_error.mp h
    have hspace : Text.isSpace c.seen = false := Bool.eq_false_iff.mpr fun hspace => by
      obtain ⟨rfl, -⟩ : Kind.space = kind ∧ _ := by simpa [munch_space hspace] using hmunch
      exact hkind rfl
    exact stopsAt_cons hspace (hpiece.startsWith hfinish) p cells
  | case4 trivia p c cells more hmunch =>
    cases h
    refine stopsAt_cons (isSpace_of_munch cells (by simp [hmunch])) ?_ p cells
    rw [seen_of_unclosed hmunch]
    exact .unterminated
  | case5 trivia p c cells hmunch flaw =>
    cases h
    exact stopsAt_cons (isSpace_of_munch cells (by simp [hmunch])) (.unexpected _) p cells

theorem tokensFrom_eq_error (h : (tokensFrom name p cells).1 = .error e) :
    StopsAt e.flaw.StartsWith p cells e.place := by
  fun_induction tokensFrom name p cells with
  | case1 p cells s e' hs =>
    cases h
    exact next_eq_error hs
  | case2 p cells s t hs => cases h
  | case3 p cells s t hs hk _ more =>
    rename_i ih
    rcases next_eq_ok hs with ⟨ls, p', ⟨-, rfl⟩ | ⟨kind, front, rest, hskips, -, -, -, hplace, hrest⟩⟩
    · exact absurd rfl hk
    · obtain ⟨passed, hcells, rfl⟩ := hskips.passed
      have hrec := ih (map_eq_error.mp h)
      rw [hplace, hrest] at hrec
      exact (hrec.behind rfl rfl).behind hcells rfl

theorem Scans.stopsAt (h : Scans p cells ts) :
    ∀ t ∈ ts, ∃ q, t.span.StartsIn q ∧ StopsAt (fun _ => True) p cells q := by
  induction h with
  | stop h =>
    obtain ⟨passed, hcells, rfl⟩ := h.passed
    intro t ht
    obtain rfl := List.mem_singleton.mp ht
    exact ⟨_, ⟨rfl, rfl, rfl⟩, (stopsAt_nil trivial _).behind hcells rfl⟩
  | token h piece hkind finished more ih =>
    obtain ⟨passed, hcells, rfl⟩ := h.passed
    refine List.forall_mem_cons.mpr ⟨⟨_, ?_, (piece.stopsAt hkind _).behind hcells rfl⟩, fun t ht => ?_⟩
    · rw [(finish_ok finished).1]
      exact ⟨rfl, rfl, rfl⟩
    · obtain ⟨q, hq, hstop⟩ := ih t ht
      exact ⟨q, hq, (hstop.behind rfl rfl).behind hcells rfl⟩

theorem Scans.getLast? (h : Scans p cells ts) : ∃ t, ts.getLast? = some t ∧ t.span.StartsIn (p.afterAll cells) := by
  induction h with
  | stop h =>
    obtain ⟨passed, rfl, rfl⟩ := h.passed
    rw [List.append_nil]
    exact ⟨_, rfl, rfl, rfl, rfl⟩
  | @token p p' kind cells front rest ls t ts h piece hkind finished more ih =>
    obtain ⟨passed, rfl, rfl⟩ := h.passed
    obtain ⟨u, hu, hstarts⟩ := ih
    refine ⟨u, by rw [List.getLast?_cons, hu]; rfl, ?_⟩
    rwa [Place.afterAll_append, Place.afterAll_append]

end Sources

/-- The cells of a source stop where the source does: what is not white space is one glyph. -/
theorem StopsAt.stops {P : Option Char → Prop} {p : Place}
    (h : StopsAt P Place.first (Cell.ofText source) p) :
    ∃ front rest, source = front ++ rest ∧ p = Place.behind front ∧
      (∀ g ∈ rest.head?, Text.isSpace g.seen = false) ∧ P (rest.head?.map Glyph.seen) := by
  obtain ⟨passed, rest, hcells, rfl, hrest, hP⟩ := h
  refine ⟨Cell.join passed, Cell.join rest, ?_, Place.behind_afterAll [] passed, ?_⟩
  · rw [← Cell.join_append, ← hcells, Cell.join_ofText]
  · cases rest with
    | nil => exact ⟨by simp [Cell.join], hP⟩
    | cons c rest =>
      have hspace := hrest c rfl
      cases c with
      | glyph g => exact ⟨by simpa [Cell.join_cons, Cell.text, Cell.seen] using hspace, hP⟩
      | crlf => exact absurd hspace (by decide)

end Lexer

/-- A flaw stands behind what was passed before it, at the character that it is about. -/
theorem tokenize_error_stops {r : Lexer.Refusal} (h : tokenize source = .error r) :
    ∃ front rest, source = front ++ rest ∧ r.place = Place.behind front ∧
      (∀ g ∈ rest.head?, Text.isSpace g.seen = false) ∧ r.flaw.StartsWith (rest.head?.map Glyph.seen) :=
  (Lexer.tokensFrom_eq_error h).stops

theorem tokenize_token_stops (h : tokenize source = .ok tokens) :
    ∀ t ∈ tokens, ∃ p, t.span.StartsIn p ∧ p.Stops source := by
  intro t ht
  obtain ⟨p, hp, hstop⟩ := (tokenize_eq_ok_iff.mp h).stopsAt t ht
  obtain ⟨front, rest, hsource, hplace, hspace, -⟩ := hstop.stops
  exact ⟨p, hp, front, rest, hsource, hplace, hspace⟩

theorem tokenize_end (h : tokenize source = .ok tokens) :
    ∃ init t, tokens = init ++ [t] ∧ t.kind = .endOfInput ∧ (∀ u ∈ init, u.kind ≠ .endOfInput) ∧
      t.span.StartsIn (Place.behind source) := by
  have hscans := tokenize_eq_ok_iff.mp h
  obtain ⟨init, t, rfl, hkind, hinit⟩ := hscans.last
  obtain ⟨u, hu, hstarts⟩ := hscans.getLast?
  rw [List.getLast?_concat] at hu
  cases hu
  have hplace : Place.first.afterAll (Cell.ofText source) = Place.behind source := by
    have hbehind := Place.behind_afterAll [] (Cell.ofText source)
    rwa [List.nil_append, Cell.join_ofText] at hbehind
  exact ⟨init, t, rfl, hkind, hinit, hplace ▸ hstarts⟩

/-! ### Order -/

namespace Lexer
variable {p : Place} {cells : List Cell} {ts : List Token}

/-- Tokens stand one behind the other, between the place where the lexer starts and the end of the cells. -/
theorem Scans.ordered (h : Scans p cells ts) :
    (∀ t ∈ ts, p.offset ≤ t.span.start ∧ t.span.start ≤ t.span.stop ∧ t.span.stop ≤ (p.afterAll cells).offset) ∧
      ts.Pairwise fun a b => a.span.stop ≤ b.span.start := by
  induction h with
  | @stop p p' cells ls h =>
    obtain ⟨passed, rfl, rfl⟩ := h.passed
    rw [List.append_nil]
    have hoffset := offset_afterAll p passed
    refine ⟨fun t ht => ?_, List.pairwise_singleton _ _⟩
    obtain rfl := List.mem_singleton.mp ht
    simp only [endToken]
    omega
  | @token p p' kind cells front rest ls t ts h piece hkind finished more ih =>
    obtain ⟨passed, rfl, rfl⟩ := h.passed
    have hspan := (finish_ok finished).1
    have hpassed := offset_afterAll p passed
    have hfront := offset_afterAll (p.afterAll passed) front
    have hrest := offset_afterAll ((p.afterAll passed).afterAll front) rest
    rw [Place.afterAll_append, Place.afterAll_append]
    refine ⟨List.forall_mem_cons.mpr ⟨?_, fun u hu => ?_⟩, List.pairwise_cons.mpr ⟨fun u hu => ?_, ih.2⟩⟩
    · rw [hspan]
      simp only [lexeme]
      omega
    · have hbounds := ih.1 u hu
      omega
    · have hbounds := ih.1 u hu
      rw [hspan]
      exact hbounds.1

end Lexer

theorem tokenize_inOrder (h : tokenize source = .ok tokens) :
    InOrder (tokens.takeWhile (·.kind != .endOfInput)) := by
  have hscans := tokenize_eq_ok_iff.mp h
  refine ⟨fun t ht => (hscans.solid t (List.takeWhile_subset _ ht)).2 ?_, hscans.ordered.2.sublist
    (List.takeWhile_sublist _)⟩
  simpa using List.all_eq_true.mp List.all_takeWhile t ht

theorem tokenize_bounds (h : tokenize source = .ok tokens) :
    ∀ t ∈ tokens, 0 ≤ t.span.start ∧ t.span.start ≤ t.span.stop ∧ t.span.stop ≤ source.bytes.length := by
  intro t ht
  have hbounds := (tokenize_eq_ok_iff.mp h).ordered.1 t ht
  rw [Lexer.offset_afterAll, Cell.join_ofText] at hbounds
  have hzero : Place.first.offset = 0 := rfl
  rw [Text.length_bytes]
  omega

end Anadil
