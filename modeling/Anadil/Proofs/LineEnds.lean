import Anadil.Proofs.Diagnosis
import Anadil.Proofs.Token.Breaks

/-! # Lines that end in a carriage return and a line feed

The lexer takes a carriage return with the line feed behind it for one cell that is seen as a line feed. So a source
is read the same, line by line and column by column, if every line feed in it gets a carriage return in front of it:
only offsets change, and they are in no outcome. -/

namespace Anadil

/-! ### Sources -/

/-- `ret` in front of every `feed`. -/
def withReturns {α : Type} [DecidableEq α] (ret feed : α) (xs : List α) : List α :=
  xs.flatMap fun x => if x = feed then [ret, feed] else [x]

section WithReturns
variable {α : Type} [DecidableEq α] {ret feed : α}

theorem withReturns_cons_feed (xs : List α) :
    withReturns ret feed (feed :: xs) = ret :: feed :: withReturns ret feed xs := by
  rw [withReturns, List.flatMap_cons, if_pos rfl]
  rfl

theorem withReturns_cons {x : α} (h : x ≠ feed) (xs : List α) :
    withReturns ret feed (x :: xs) = x :: withReturns ret feed xs := by
  rw [withReturns, List.flatMap_cons, if_neg h]
  rfl

theorem withReturns_append_of_notMem {xs : List α} (h : feed ∉ xs) (ys : List α) :
    withReturns ret feed (xs ++ ys) = xs ++ withReturns ret feed ys := by
  induction xs with
  | nil => rfl
  | cons x xs ih =>
    obtain ⟨hx, hxs⟩ := not_or.mp fun hmem => h (List.mem_cons.mpr hmem)
    rw [List.cons_append, withReturns_cons (Ne.symm hx), ih hxs, List.cons_append]

theorem withReturns_of_notMem {xs : List α} (h : feed ∉ xs) : withReturns ret feed xs = xs := by
  have happend := @withReturns_append_of_notMem _ _ ret feed xs h []
  rw [List.append_nil] at happend
  exact happend.trans (List.append_nil xs)

end WithReturns

namespace Text

theorem ofBytes_single {b : UInt8} {c : Char} (h : String.utf8EncodeChar c = [b]) (x y : List UInt8) :
    ofBytes (x ++ b :: y) = ofBytes x ++ .char c :: ofBytes y := by
  have hbounded := bounded_encode c y
  have hread := ofBytes_encode c y
  rw [h] at hbounded hread
  rw [← List.singleton_append, ofBytes_append hbounded, hread]

theorem notMem_ofBytes {b : UInt8} {c : Char} (hc : String.utf8EncodeChar c = [b]) {bytes : List UInt8}
    (h : b ∉ bytes) : .char c ∉ ofBytes bytes := by
  intro hmem
  refine h ?_
  rw [← bytes_ofBytes bytes]
  refine List.mem_flatMap.mpr ⟨_, hmem, ?_⟩
  rw [Glyph.bytes, hc]
  exact List.mem_singleton_self b

/-- No character goes over a line feed, so the returns may be put among the bytes as well. -/
theorem ofBytes_withReturns (bytes : List UInt8) :
    ofBytes (withReturns 0x0D 0x0A bytes) = withReturns (.char '\r') (.char '\n') (ofBytes bytes) := by
  induction hn : bytes.length using Nat.strongRecOn generalizing bytes with
  | _ n ih =>
    have hnone : ∀ {x : List UInt8}, 0x0A ∉ x → .char '\n' ∉ ofBytes x := notMem_ofBytes (by decide)
    by_cases hmem : 0x0A ∈ bytes
    · obtain ⟨x, y, rfl, hx⟩ := List.eq_append_cons_of_mem hmem
      have hlength : y.length < n := by
        rw [← hn, List.length_append, List.length_cons]
        omega
      have hfeed : ∀ x z, ofBytes (x ++ 0x0A :: z) = ofBytes x ++ .char '\n' :: ofBytes z := ofBytes_single (by decide)
      have hret : ∀ x z, ofBytes (x ++ 0x0D :: z) = ofBytes x ++ .char '\r' :: ofBytes z := ofBytes_single (by decide)
      rw [withReturns_append_of_notMem hx, withReturns_cons_feed, hret, hfeed x,
        withReturns_append_of_notMem (hnone hx), withReturns_cons_feed, ← ih _ hlength y rfl]
      exact congrArg (ofBytes x ++ _ :: ·) (hfeed [] _)
    · rw [withReturns_of_notMem hmem, withReturns_of_notMem (hnone hmem)]

end Text

/-! ### Cells -/

/-- A cell that ends a line, with a carriage return. -/
def Cell.wide (c : Cell) : Cell := if c = .glyph (.char '\n') then .crlf else c

namespace Cell

theorem seen_wide (c : Cell) : c.wide.seen = c.seen := by
  unfold wide
  split
  · rename_i h
    rw [h]
    rfl
  · rfl

theorem wide_of_seen {c : Cell} (h : c.seen ≠ '\n') : c.wide = c := by
  refine if_neg ?_
  rintro rfl
  exact h rfl

theorem map_wide {cells : List Cell} (h : ∀ c ∈ cells, c.seen ≠ '\n') : cells.map wide = cells := by
  rw [List.map_congr_left fun c hc => wide_of_seen (h c hc), List.map_id']

/-- Without carriage returns, a cell is a glyph. With one in front of every line feed, lines end wide. -/
theorem ofText_withReturns {t : Text} (h : .char '\r' ∉ t) :
    ofText (withReturns (.char '\r') (.char '\n') t) = (ofText t).map wide := by
  induction t with
  | nil => rfl
  | cons g t ih =>
    obtain ⟨hg, ht⟩ := not_or.mp fun hmem => h (List.mem_cons.mpr hmem)
    have hcells : ofText (g :: t) = .glyph g :: ofText t := ofText.eq_3 g t fun rest hg' _ => hg hg'.symm
    rw [hcells, List.map_cons, ← ih ht]
    by_cases hfeed : g = .char '\n'
    · subst hfeed
      rw [withReturns_cons_feed]
      rfl
    · have hwide : wide (.glyph g) = .glyph g := if_neg fun heq => hfeed (Cell.glyph.inj heq)
      rw [withReturns_cons hfeed, hwide]
      exact ofText.eq_3 g _ fun rest hg' _ => hg hg'.symm

end Cell

/-- Places on the same line and in the same column. -/
structure Place.Aligned (p p' : Place) : Prop where
  line : p.line = p'.line
  column : p.column = p'.column

theorem Place.Aligned.after {p p' : Place} (h : p.Aligned p') (c : Cell) : (p.after c).Aligned (p'.after c.wide) := by
  unfold Place.after
  rw [c.seen_wide]
  split
  · exact ⟨congrArg (· + 1) h.line, rfl⟩
  · exact ⟨h.line, congrArg (· + 1) h.column⟩

theorem Place.Aligned.afterAll {p p' : Place} (h : p.Aligned p') (cells : List Cell) :
    (p.afterAll cells).Aligned (p'.afterAll (cells.map Cell.wide)) := by
  induction cells generalizing p p' with
  | nil => exact h
  | cons c cells ih => exact ih (h.after c)

/-! ### Tokens -/

namespace Lexer

theorem run_wide (p : Char → Bool) (cells : List Cell) : run p (cells.map Cell.wide) = run p cells := by
  unfold run
  rw [List.takeWhile_map, List.length_map]
  simp only [Function.comp_def, Cell.seen_wide]

theorem numberRun_wide (cells : List Cell) : numberRun (cells.map Cell.wide) = numberRun cells := by
  unfold numberRun
  dsimp only
  rw [run_wide, ← List.map_drop]
  cases cells.drop (run isDigit cells) with
  | nil => rfl
  | cons point rest =>
    cases rest with
    | nil => rfl
    | cons digit rest => simp only [List.map_cons, Cell.seen_wide, run_wide]

theorem munch_wide (c : Cell) (cells : List Cell) : munch c.wide (cells.map Cell.wide) = munch c cells := by
  have hahead : (cells.map Cell.wide).head?.map Cell.seen = cells.head?.map Cell.seen := by
    rw [List.head?_map, Option.map_map]
    simp only [Function.comp_def, Cell.seen_wide]
  unfold munch
  simp only [Cell.seen_wide, hahead, run_wide, numberRun_wide, ← List.map_drop]
  cases cells.drop (run (fun d => d != '"' && d != '\n') cells) with
  | nil => rfl
  | cons quote rest => simp only [List.map_cons, Cell.seen_wide]

/-- What a refusal tells: its line, its column and the flaw. -/
def Refusal.told (r : Refusal) : Nat × Nat × Flaw := (r.place.line, r.place.column, r.flaw)

/-- An outcome without its offsets. -/
def told {α β : Type} (f : α → β) (x : Except Refusal α) : Except (Nat × Nat × Flaw) β :=
  (x.map f).mapError Refusal.told

theorem finish_aligned {kind : Kind} {front : List Cell} {p p' : Place} (h : p.Aligned p')
    (trivia trivia' : List Lexeme) :
    told (Token.sight .placed) ((finish (lexeme kind p' front) trivia').mapError (Refusal.mk p')) =
      told (Token.sight .placed) ((finish (lexeme kind p front) trivia).mapError (Refusal.mk p)) := by
  have hspan : View.placed.span (lexeme kind p' front).span = View.placed.span (lexeme kind p front).span := by
    simp only [View.placed, View.span, lexeme, h.line, h.column]
  unfold finish
  dsimp only [lexeme]
  split
  · split
    · simp only [told, Except.mapError, Except.map, Refusal.told, h.line, h.column]
    · exact congrArg Except.ok (congrArg (Prod.mk _) hspan)
  · exact congrArg Except.ok (congrArg (Prod.mk _) hspan)
  · exact congrArg Except.ok (congrArg (Prod.mk _) hspan)

/-- Steps that give the same but for offsets, and go on in the same column. -/
structure Step.Alike (s s' : Step) : Prop where
  outcome : told (Token.sight .placed) s'.outcome = told (Token.sight .placed) s.outcome
  place : s.place.Aligned s'.place
  rest : s'.rest = s.rest.map Cell.wide

/-- With returns in front of its newlines a source has the same next token. -/
theorem next_wide (name : Text) (trivia trivia' : List Lexeme) {p p' : Place} (h : p.Aligned p') (cells : List Cell) :
    (next name trivia p cells).Alike (next name trivia' p' (cells.map Cell.wide)) := by
  fun_induction next name trivia p cells generalizing trivia' p' with
  | case1 trivia p =>
    rw [List.map_nil, next]
    refine ⟨?_, h, rfl⟩
    simp only [told, Except.map, Except.mapError, endToken, Token.sight, View.placed, View.span, h.line, h.column]
    rfl
  | case2 trivia p c cells kind more hmunch piece log q hkind =>
    rename_i ih
    have hplace := h.afterAll (c :: cells.take more)
    rw [List.map_cons, List.map_take] at hplace
    have hrest := ih (trivia' ++ [lexeme kind p' (c.wide :: (cells.map Cell.wide).take more)]) hplace
    rw [List.map_drop] at hrest
    rw [List.map_cons, next, munch_wide, hmunch]
    simp only [hkind, if_true]
    exact ⟨hrest.outcome, hrest.place, hrest.rest⟩
  | case3 trivia p c cells kind more hmunch piece log q =>
    rename_i hkind
    have hpiece : Piece kind (c :: cells.take more) (cells.drop more) := ⟨c, cells, more, hmunch, rfl, rfl⟩
    have hspace : kind ≠ .space := by
      rintro rfl
      exact hkind rfl
    -- what is no white space stays on its line, and is the same piece
    have hfront := Cell.map_wide (hpiece.shape.oneLine hspace)
    have hplace := h.afterAll (c :: cells.take more)
    rw [hfront] at hplace
    rw [List.map_cons, List.map_take] at hfront
    rw [List.map_cons, next, munch_wide, hmunch]
    simp only [hkind, if_false, hfront, Bool.false_eq_true]
    exact ⟨finish_aligned h trivia trivia', hplace, List.map_drop.symm⟩
  | case4 trivia p c cells more hmunch =>
    have hplace := h.afterAll (c :: cells.take more)
    rw [List.map_cons, List.map_take] at hplace
    rw [List.map_cons, next, munch_wide, hmunch]
    refine ⟨?_, hplace, List.map_drop.symm⟩
    simp only [told, Except.map, Except.mapError, Refusal.told, h.line, h.column]
  | case5 trivia p c cells hmunch flaw =>
    rw [List.map_cons, next, munch_wide, hmunch]
    refine ⟨?_, h, rfl⟩
    simp only [told, Except.map, Except.mapError, Refusal.told, h.line, h.column, c.seen_wide]
    rfl

section Tokens
variable {name : Text} {p p' : Place} {cells : List Cell} {t : Token} {e : Refusal}

theorem tokensFrom_of_error (h : (next name [] p cells).outcome = .error e) :
    (tokensFrom name p cells).1 = .error e := by
  rw [tokensFrom]
  dsimp only
  split
  · rename_i hnext
    rw [h] at hnext
    cases hnext
    rfl
  · rename_i hnext
    rw [h] at hnext
    cases hnext

theorem tokensFrom_of_end (h : (next name [] p cells).outcome = .ok t) (hkind : t.kind = .endOfInput) :
    (tokensFrom name p cells).1 = .ok [t] := by
  rw [tokensFrom]
  dsimp only
  split
  · rename_i hnext
    rw [h] at hnext
    cases hnext
  · rename_i hnext
    rw [h] at hnext
    cases hnext
    rw [dif_pos hkind]

theorem tokensFrom_of_token (h : (next name [] p cells).outcome = .ok t) (hkind : t.kind ≠ .endOfInput) :
    (tokensFrom name p cells).1 =
      (tokensFrom name (next name [] p cells).place (next name [] p cells).rest).1.map (t :: ·) := by
  rw [tokensFrom]
  dsimp only
  split
  · rename_i hnext
    rw [h] at hnext
    cases hnext
  · rename_i hnext
    rw [h] at hnext
    cases hnext
    rw [dif_neg hkind]

theorem told_cases {α β : Type} {f : α → β} {x x' : Except Refusal α} (h : told f x' = told f x) :
    (∃ e e', x = .error e ∧ x' = .error e' ∧ e'.told = e.told) ∨ ∃ a a', x = .ok a ∧ x' = .ok a' ∧ f a' = f a := by
  cases x with
  | error e =>
    cases x' with
    | error e' => exact .inl ⟨e, e', rfl, rfl, Except.error.inj h⟩
    | ok a' => cases h
  | ok a =>
    cases x' with
    | error e' => cases h
    | ok a' => exact .inr ⟨a, a', rfl, rfl, Except.ok.inj h⟩

/-- So it has the same tokens, each at its line and column. -/
theorem tokensFrom_wide (name : Text) (h : p.Aligned p') (cells : List Cell) :
    told (List.map (Token.sight .placed)) (tokensFrom name p' (cells.map Cell.wide)).1 =
      told (List.map (Token.sight .placed)) (tokensFrom name p cells).1 := by
  induction hn : cells.length using Nat.strongRecOn generalizing p p' cells with
  | _ n ih =>
    have hstep := next_wide name [] [] h cells
    rcases told_cases hstep.outcome with ⟨e, e', he, he', htold⟩ | ⟨t, t', ht, ht', hsight⟩
    · rw [tokensFrom_of_error he, tokensFrom_of_error he']
      exact congrArg Except.error htold
    · have hkinds : t'.kind = t.kind := congrArg (·.1.1) hsight
      by_cases hkind : t.kind = .endOfInput
      · rw [tokensFrom_of_end ht hkind, tokensFrom_of_end ht' (hkinds.trans hkind)]
        exact congrArg (fun s => Except.ok [s]) hsight
      · have hshorter := (next_rest_length name [] p cells).2 t ht hkind
        have hmore := ih _ (hn ▸ hshorter) hstep.place _ rfl
        rw [tokensFrom_of_token ht hkind, tokensFrom_of_token ht' (hkinds ▸ hkind), hstep.rest]
        rcases told_cases hmore with ⟨e, e', he, he', htold⟩ | ⟨ts, ts', hts, hts', hsights⟩
        · rw [he, he']
          exact congrArg Except.error htold
        · rw [hts, hts']
          exact congrArg Except.ok (congrArg₂ List.cons hsight hsights)

end Tokens

end Lexer

/-- The same for whole sources. -/
theorem tokenize_withReturns {source : Text} (h : .char '\r' ∉ source) :
    Lexer.told (List.map (Token.sight .placed)) (tokenize (withReturns (.char '\r') (.char '\n') source)) =
      Lexer.told (List.map (Token.sight .placed)) (tokenize source) := by
  have hwide := Lexer.tokensFrom_wide [] (⟨rfl, rfl⟩ : Place.first.Aligned Place.first) (Cell.ofText source)
  rwa [← Cell.ofText_withReturns h] at hwide

/-! ### Outcomes -/

section Outcomes
variable {source : Text} {tokens tokens' : List Token} (style : Python.Style)

theorem compile_eq_stages : compile style source = (compileStages style source).1.mapError Fault.staged := by
  unfold compile compileLogged
  cases h : (compileStages style source).1 with
  | error f => simp only [h, Except.mapError]
  | ok python => simp only [h, Except.mapError]

theorem compileStages_of_flaw {r : Lexer.Refusal} (h : tokenize (withoutMark source) = .error r) :
    (compileStages style source).1 = .error (Fault.ofLexer r) := by
  have hscan : (Lexer.scanAll [] (withoutMark source)).1 = .error r := h
  unfold compileStages
  simp only [hscan]

/-- What is translated does not depend on offsets. -/
theorem translate_placed (program : Except Parser.Failure Program) :
    translate style ((program.map (Program.viewed .placed)).mapError (Parser.Failure.viewed .placed)) =
      translate style program := by
  cases program with
  | error f => exact congrArg (fun f => Except.error (Fault.ofParser f)) f.viewed_placed
  | ok p =>
    change (Python.generate style (p.viewed .placed)).mapError _ = (Python.generate style p).mapError _
    rw [Python.generate_viewed]
    cases Python.generate style p with
    | error f => exact congrArg (fun f => Except.error (Python.Failure.fault f)) f.viewed_placed
    | ok python => rfl

/-- Sources whose tokens and flaws are the same but for offsets are translated to the same text, or fail the same. -/
theorem compile_of_told {source source' : Text}
    (h : Lexer.told (List.map (Token.sight .placed)) (tokenize (withoutMark source')) =
      Lexer.told (List.map (Token.sight .placed)) (tokenize (withoutMark source))) :
    compile style source' = compile style source := by
  rw [compile_eq_stages, compile_eq_stages]
  rcases Lexer.told_cases h with ⟨e, e', he, he', htold⟩ | ⟨ts, ts', hts, hts', hsights⟩
  · rw [compileStages_of_flaw style he, compileStages_of_flaw style he']
    obtain ⟨hline, hcolumn, hflaw⟩ : e'.place.line = e.place.line ∧ e'.place.column = e.place.column ∧
        e'.flaw = e.flaw := by
      simpa only [Lexer.Refusal.told, Prod.mk.injEq] using htold
    rw [Fault.ofLexer, Fault.ofLexer, hline, hcolumn, hflaw]
  · rw [compileStages_of_tokens hts, compileStages_of_tokens hts', ← translate_placed, Parser.parse_viewed hsights,
      translate_placed]

end Outcomes

theorem withoutMark_withReturns (source : Text) :
    withoutMark (withReturns (.char '\r') (.char '\n') source) =
      withReturns (.char '\r') (.char '\n') (withoutMark source) := by
  have hmark : ∀ (g : Glyph) (t : Text), Text.byteOrderMark.isPrefixOf (g :: t) = (.char '\uFEFF' == g) := by
    intro g t
    simp only [Text.byteOrderMark, List.isPrefixOf, Bool.and_true]
  unfold withoutMark Text.dropStart
  cases source with
  | nil => rfl
  | cons g t =>
    by_cases hg : g = .char '\n'
    · subst hg
      rw [withReturns_cons_feed, hmark, hmark, if_neg (by decide), if_neg (by decide), withReturns_cons_feed]
    · rw [withReturns_cons hg, hmark, hmark]
      split
      · rfl
      · rw [withReturns_cons hg]

/-- What a token says and where it stands, without its offsets. -/
def Token.told (t : Token) : Kind × Text × Int × Int := (t.kind, t.text, t.span.line, t.span.column)

/-- A source without carriage returns, and the same source with one in front of every line feed, have the same tokens
or the same flaw in the same lines and columns, and are translated to the same text or fail the same. -/
theorem lineEnds_invariant {bytes : List UInt8} (h : 0x0D ∉ bytes) :
    Lexer.told (List.map Token.told) (tokenize (.ofBytes (withReturns 0x0D 0x0A bytes))) =
        Lexer.told (List.map Token.told) (tokenize (.ofBytes bytes)) ∧
      ∀ style, compile style (.ofBytes (withReturns 0x0D 0x0A bytes)) = compile style (.ofBytes bytes) := by
  have hreturn : .char '\r' ∉ Text.ofBytes bytes := Text.notMem_ofBytes (by decide) h
  have htold : ∀ x, Lexer.told (List.map Token.told) x = (Lexer.told (List.map (Token.sight .placed)) x).map
      (List.map fun s => (s.1.1, s.1.2, s.2.line, s.2.column)) := by
    intro x
    cases x with
    | error e => rfl
    | ok ts =>
      simp only [Lexer.told, Except.map, Except.mapError, List.map_map]
      rfl
  rw [Text.ofBytes_withReturns]
  refine ⟨by rw [htold, htold, tokenize_withReturns hreturn], fun style => compile_of_told style ?_⟩
  rw [withoutMark_withReturns, tokenize_withReturns fun hmem => hreturn ?_]
  rcases mark_cases (.ofBytes bytes) with ⟨hnone, -⟩ | hmark
  · rwa [hnone] at hmem
  · rw [hmark]
    exact List.mem_append_right _ hmem

/-- A comment and a string literal that its line does not close. -/
def unclosedLine : List UInt8 := (Text.ofString "// é\nx = \"a\n").bytes

theorem lineEnds_invariant_unclosedLine :
    0x0D ∉ unclosedLine ∧ (tokenize (.ofBytes unclosedLine)).isOk = false ∧
      Lexer.told (List.map Token.told) (tokenize (.ofBytes (withReturns 0x0D 0x0A unclosedLine))) =
        Lexer.told (List.map Token.told) (tokenize (.ofBytes unclosedLine)) ∧
      compile .default (.ofBytes (withReturns 0x0D 0x0A unclosedLine)) = compile .default (.ofBytes unclosedLine) := by
  have hnone : 0x0D ∉ unclosedLine := by decide
  obtain ⟨htold, hcompile⟩ := lineEnds_invariant hnone
  exact ⟨hnone, by decide +kernel, htold, hcompile .default⟩

end Anadil
