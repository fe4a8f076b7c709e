import Mathlib.Data.List.Chain
import Anadil.Proofs.Token.Positions
import Anadil.Proofs.Tree.Words

/-! # Other white space between the same tokens

The lexemes of a source, put together again with any white space around them and at least some between
them, are divided into tokens that say the same words. -/

namespace Anadil

/-! ### Cells that are put together -/

namespace Cell

/-- No carriage return stands as a cell of its own in front of a line feed. -/
def Paired (cells : List Cell) : Prop :=
  cells.IsChain fun c d => ¬ (c = .glyph (.char '\r') ∧ d = .glyph (.char '\n'))

theorem head_ofText {t : Text} (h : (ofText t).head? = some (.glyph (.char '\n'))) :
    t.head? = some (.char '\n') := by
  fun_cases ofText t with
  | case1 => cases h
  | case2 rest => cases h
  | case3 g rest hpair =>
    rw [ofText.eq_3 g rest hpair] at h
    cases h
    rfl

theorem paired_ofText (t : Text) : Paired (ofText t) := by
  fun_induction ofText t with
  | case1 => exact .nil
  | case2 rest ih =>
    refine List.isChain_cons.mpr ⟨fun d _ hcd => ?_, ih⟩
    cases hcd.1
  | case3 g rest hpair ih =>
    refine List.isChain_cons.mpr ⟨fun d hd hcd => ?_, ih⟩
    obtain ⟨hg, rfl⟩ := hcd
    cases hg
    have hhead := head_ofText hd
    cases rest with
    | nil => cases hhead
    | cons g' rest =>
      cases hhead
      exact hpair rest rfl rfl

theorem ofText_join {cells : List Cell} (h : Paired cells) : ofText (join cells) = cells := by
  induction cells with
  | nil => rfl
  | cons c cells ih =>
    obtain ⟨hhead, htail⟩ := List.isChain_cons.mp h
    rw [join_cons]
    cases c with
    | crlf =>
      change ofText (.char '\r' :: .char '\n' :: join cells) = _
      rw [ofText, ih htail]
    | glyph g =>
      change ofText (g :: join cells) = _
      rw [ofText, ih htail]
      rintro rest rfl hrest
      cases cells with
      | nil => cases hrest
      | cons d cells =>
        rw [join_cons] at hrest
        cases d with
        | crlf => cases hrest
        | glyph g' =>
          obtain ⟨rfl, -⟩ := List.cons.inj hrest
          exact hhead _ rfl ⟨rfl, rfl⟩

theorem Paired.append {a b : List Cell} (ha : Paired a) (hb : Paired b)
    (h : (∀ c ∈ a.getLast?, c.seen ≠ '\r') ∨ ∀ c ∈ b.head?, c ≠ .glyph (.char '\n')) :
    Paired (a ++ b) := by
  refine List.isChain_append.mpr ⟨ha, hb, fun c hc d hd hcd => ?_⟩
  rcases h with h | h
  · exact h c hc (hcd.1 ▸ rfl)
  · exact h d hd hcd.2

theorem isSpace_ofText {cs : List Char} (h : ∀ c ∈ cs, Text.isSpace c = true) :
    ∀ d ∈ ofText (cs.map .char), Text.isSpace d.seen = true := by
  generalize ht : cs.map Glyph.char = t
  fun_induction ofText t generalizing cs with
  | case1 => exact List.forall_mem_nil _
  | case2 rest ih =>
    obtain ⟨c, cs, rfl, -, ht⟩ := List.map_eq_cons_iff.mp ht
    obtain ⟨c', cs, rfl, -, hrest⟩ := List.map_eq_cons_iff.mp ht
    have hcs := (List.forall_mem_cons.mp (List.forall_mem_cons.mp h).2).2
    exact List.forall_mem_cons.mpr ⟨by decide, ih hcs hrest⟩
  | case3 g rest _ ih =>
    obtain ⟨c, cs, rfl, rfl, hrest⟩ := List.map_eq_cons_iff.mp ht
    obtain ⟨hc, hcs⟩ := List.forall_mem_cons.mp h
    exact List.forall_mem_cons.mpr ⟨hc, ih hcs hrest⟩

end Cell

namespace Text

theorem ofBytes_chars (cs : List Char) : ofBytes (bytes (cs.map .char)) = cs.map .char := by
  induction cs with
  | nil => rfl
  | cons c cs ih =>
    rw [List.map_cons, bytes_cons]
    exact (ofBytes_encode c _).trans (congrArg _ ih)

theorem startsClean_chars (cs : List Char) : StartsClean (cs.map .char) := by
  cases cs with
  | nil => exact nofun
  | cons c cs =>
    rintro g hg
    cases hg
    exact ⟨c, rfl⟩

end Text

namespace Lexer

/-! ### Lexemes -/

/-- What makes a token of a source, wherever it stands. -/
structure Chunk where
  kind : Kind
  cells : List Cell
  word : Word
  shape : Shape kind cells
  significant : kind.isTrivia = false
  paired : Cell.Paired cells
  faithful : Text.ofBytes (Cell.join cells).bytes = Cell.join cells
  made : ∀ place trivia, ∃ t, finish (lexeme kind place cells) trivia = .ok t ∧ t.word = word

theorem finish_congr {piece piece' : Lexeme} {trivia : List Lexeme} {t : Token}
    (h : finish piece trivia = .ok t) (hkind : piece'.kind = piece.kind) (htext : piece'.text = piece.text)
    (trivia' : List Lexeme) : ∃ t', finish piece' trivia' = .ok t' ∧ t'.word = t.word := by
  unfold finish at h ⊢
  rw [hkind, htext]
  split at h
  · dsimp only at h ⊢
    split at h
    · cases h
    · rename_i hnormal
      rw [if_neg hnormal]
      cases h
      exact ⟨_, rfl, rfl⟩
  · cases h
    exact ⟨_, rfl, rfl⟩
  · cases h
    exact ⟨_, rfl, by simp only [Token.word, hkind, htext]⟩

/-- All tokens but the end of input. -/
def significant (tokens : List Token) : List Token := tokens.filter (·.kind != .endOfInput)

/-- The tokens of a source are made of chunks, and the bytes of their lexemes are those of the chunks. -/
theorem Scans.chunks {p : Place} {cells : List Cell} {ts : List Token} (h : Scans p cells ts)
    {before : Text} (hp : p = Place.behind before) {bytes : List UInt8}
    (hbytes : Text.ofBytes bytes = before ++ Cell.join cells) (hpaired : Cell.Paired cells) :
    ∃ chunks : List Chunk, ts.map Token.word = chunks.map Chunk.word ++ [(.endOfInput, [])] ∧
      (significant ts).map (fun t => t.span.bytes bytes) = chunks.map fun k => (Cell.join k.cells).bytes := by
  induction h generalizing before with
  | stop h => exact ⟨[], rfl, rfl⟩
  | @token p p' kind cells front rest ls t ts h piece hkind finished more ih =>
    obtain ⟨passed, rfl, rfl⟩ := h.passed
    rw [hp, Place.behind_afterAll] at finished ih more
    rw [Cell.join_append, ← List.append_assoc, Cell.join_append] at hbytes
    have hrest : Text.StartsClean (Cell.join rest) :=
      (more.covers (Place.behind_afterAll _ front)).startsClean
    have hpaired : Cell.Paired (front ++ rest) := List.IsChain.right_of_append hpaired
    have hparts := (Text.ofBytes_parts hbytes (piece.shape.startsClean.append hrest)).2
    obtain ⟨chunks, hwords, hlexemes⟩ :=
      ih (Place.behind_afterAll _ front) (hbytes.trans (List.append_assoc ..).symm)
        (List.IsChain.right_of_append hpaired)
    let chunk : Chunk := {
      kind, cells := front, word := t.word, shape := piece.shape, significant := hkind
      paired := List.IsChain.left_of_append hpaired
      faithful := (Text.ofBytes_parts hparts hrest).1
      made := fun place trivia =>
        @finish_congr _ (lexeme kind place front) _ _ finished rfl rfl trivia }
    refine ⟨chunk :: chunks, by rw [List.map_cons, hwords]; rfl, ?_⟩
    have hspan : t.span.bytes bytes = (Cell.join front).bytes := by
      rw [(finish_ok finished).1]
      refine bytes_between ((Text.bytes_ofBytes bytes).symm.trans (congrArg _ hbytes)) rfl ?_
      simp only [lexeme, Place.behind_afterAll]
      rfl
    have hsignificant : significant (t :: ts) = t :: significant ts :=
      List.filter_cons_of_pos (bne_iff_ne.mpr (token_kind_ne piece finished))
    rw [hsignificant, List.map_cons, hspan, hlexemes]
    rfl

/-! ### Lexemes apart -/

/-- The cells of chunks with white space behind each of them. -/
def spread (chunks : List Chunk) (gaps : List (List Char)) : List Cell :=
  (List.zipWith (fun k g => k.cells ++ Cell.ofText (g.map .char)) chunks gaps).flatten

/-- White space between lexemes: each gap is blank, and only the last one may be empty. -/
structure Apart (gaps : List (List Char)) : Prop where
  blank : ∀ g ∈ gaps, ∀ c ∈ g, Text.isSpace c = true
  nonempty : ∀ g ∈ gaps.dropLast, g ≠ []

theorem Apart.tail {g : List Char} {gaps : List (List Char)} (h : Apart (g :: gaps)) :
    Apart gaps ∧ (∀ c ∈ g, Text.isSpace c = true) ∧ (gaps ≠ [] → g ≠ []) := by
  obtain ⟨hg, hgaps⟩ := List.forall_mem_cons.mp h.blank
  refine ⟨⟨hgaps, fun g' hg' => ?_⟩, hg, fun hne => ?_⟩
  · cases gaps with
    | nil => cases hg'
    | cons g'' gaps => exact h.nonempty g' (List.mem_cons_of_mem g hg')
  · refine h.nonempty g ?_
    rw [List.dropLast_cons_of_ne_nil hne]
    exact List.mem_cons_self

theorem spread_cons (k : Chunk) (chunks : List Chunk) (g : List Char) (gaps : List (List Char)) :
    spread (k :: chunks) (g :: gaps) =
      k.cells ++ (Cell.ofText (g.map .char) ++ spread chunks gaps) := by
  simp [spread]

theorem Chunk.head (k : Chunk) : ∃ c cs, k.cells = c :: cs ∧ Text.isSpace c.seen = false := by
  obtain ⟨c, cs, hcells, -, hspace⟩ := k.shape.head
  refine ⟨c, cs, hcells, hspace fun hkind => ?_⟩
  have hsignificant := k.significant
  rw [hkind] at hsignificant
  cases hsignificant

/-- Blanks are skipped up to something that is none. -/
theorem skips_blank {ws rest : List Cell} (hws : ∀ c ∈ ws, Text.isSpace c.seen = true)
    (hrest : ∀ c ∈ rest.head?, Text.isSpace c.seen = false) (p : Place) :
    ∃ ls, Skips p (ws ++ rest) ls (p.afterAll ws) rest := by
  cases ws with
  | nil => exact ⟨[], .done p rest⟩
  | cons c cs =>
    obtain ⟨hc, hcs⟩ := List.forall_mem_cons.mp hws
    have hpiece : Piece .space (c :: cs) rest := by
      refine piece_of_munch ?_
      simp [munch, hc, run_append hcs hrest]
    exact ⟨_, .piece hpiece rfl (.done _ rest)⟩

theorem head_spread (chunks : List Chunk) (gaps : List (List Char)) :
    ∀ c ∈ (spread chunks gaps).head?, Text.isSpace c.seen = false := by
  match chunks, gaps with
  | [], _ => exact nofun
  | _ :: _, [] => exact nofun
  | k :: chunks, g :: gaps =>
    obtain ⟨c, cs, hcells, hspace⟩ := k.head
    rw [spread_cons, hcells]
    rintro d hd
    cases hd
    exact hspace

/-- Chunks that stand apart are divided into tokens that say their words. -/
theorem scans_spread {chunks : List Chunk} {gaps : List (List Char)} (hlen : gaps.length = chunks.length)
    (hgaps : Apart gaps) {ws : List Cell} (hws : ∀ c ∈ ws, Text.isSpace c.seen = true) (p : Place) :
    ∃ ts, Scans p (ws ++ spread chunks gaps) ts ∧
      ts.map Token.word = chunks.map Chunk.word ++ [(.endOfInput, [])] := by
  obtain ⟨ls, hskips⟩ := skips_blank hws (head_spread chunks gaps) p
  induction chunks generalizing gaps ws p ls with
  | nil =>
    obtain rfl := List.length_eq_zero_iff.mp hlen
    exact ⟨_, .stop hskips, rfl⟩
  | cons k chunks ih =>
    cases gaps with
    | nil => cases hlen
    | cons g gaps =>
      obtain ⟨hgaps, hg, hne⟩ := hgaps.tail
      have hlen : gaps.length = chunks.length := Nat.succ.inj hlen
      have hblank := Cell.isSpace_ofText hg
      -- what comes behind the chunk is white space, or nothing where the last gap is empty
      have hclear : Clear (Cell.ofText (g.map .char) ++ spread chunks gaps) := by
        cases hcells : Cell.ofText (g.map .char) with
        | nil =>
          have hnil : g = [] := by
            have hjoin := Cell.join_ofText (g.map .char)
            rw [hcells] at hjoin
            exact List.map_eq_nil_iff.mp hjoin.symm
          have hlast : gaps = [] := Classical.byContradiction fun h => hne h hnil
          rw [hlast, List.length_nil] at hlen
          rw [List.length_eq_zero_iff.mp hlen.symm]
          exact nofun
        | cons c cs =>
          rintro d hd
          cases hd
          exact hblank c (by rw [hcells]; exact List.mem_cons_self)
      rw [spread_cons] at hskips ⊢
      obtain ⟨t, hfinish, hword⟩ := k.made (p.afterAll ws) ls
      obtain ⟨ls', hskips'⟩ := skips_blank hblank (head_spread chunks gaps) ((p.afterAll ws).afterAll k.cells)
      obtain ⟨ts, hscans, hwords⟩ := ih hlen hgaps hblank _ ls' hskips'
      refine ⟨t :: ts, .token hskips (k.shape.piece hclear k.significant) k.significant hfinish hscans, ?_⟩
      rw [List.map_cons, hword, hwords]
      rfl

theorem last_of_all {p : Cell → Prop} {cs : List Cell} (h : ∀ d ∈ cs, p d) : ∀ d ∈ cs.getLast?, p d :=
  fun d hd => h d (List.mem_of_getLast? hd)

theorem Shape.last {kind : Kind} {front : List Cell} (h : Shape kind front) (hkind : kind.isTrivia = false) :
    ∀ c ∈ front.getLast?, c.seen ≠ '\r' := by
  have hname : ∀ c : Cell, isNamePart c.seen = true → c.seen ≠ '\r' := fun c => seen_ne_of (by decide)
  have hdigit : ∀ c : Cell, isDigit c.seen = true → c.seen ≠ '\r' := fun c => seen_ne_of (by decide)
  have hmark : ∀ c : Cell, c.seen ∈ marks → c.seen ≠ '\r' := fun c => mark_ne (by decide)
  cases h with
  | space => cases hkind
  | comment => cases hkind
  | name hc hcs =>
    exact last_of_all (List.forall_mem_cons.mpr
      ⟨hname _ (isNamePart_of_isNameStart hc), fun d hd => hname d (hcs d hd)⟩)
  | whole hc hcs => exact last_of_all (List.forall_mem_cons.mpr ⟨hdigit _ hc, fun d hd => hdigit d (hcs d hd)⟩)
  | fraction hc hcs hpoint hfirst hds =>
    rw [← List.cons_append, List.getLast?_append_of_ne_nil _ (List.cons_ne_nil _ _)]
    refine last_of_all (List.forall_mem_cons.mpr ⟨hmark _ (by rw [hpoint]; decide), ?_⟩)
    exact List.forall_mem_cons.mpr ⟨hdigit _ hfirst, fun d hd => hdigit d (hds d hd)⟩
  | string hc hcs hquote =>
    rw [← List.cons_append, List.getLast?_concat]
    rintro d hd
    cases hd
    exact hmark _ (by rw [hquote]; decide)
  | double h =>
    rintro d hd
    cases hd
    exact hmark _ (double?_marks h).2
  | single h =>
    rintro d hd
    cases hd
    exact hmark _ (single?_mark h)

theorem head_ne_newline {cells : List Cell} (h : ∀ c ∈ cells.head?, Text.isSpace c.seen = false) :
    ∀ c ∈ cells.head?, c ≠ .glyph (.char '\n') := by
  rintro c hc rfl
  exact absurd (h _ hc) (by decide)

theorem paired_spread (chunks : List Chunk) (gaps : List (List Char)) : Cell.Paired (spread chunks gaps) := by
  induction chunks generalizing gaps with
  | nil => exact .nil
  | cons k chunks ih =>
    cases gaps with
    | nil => exact .nil
    | cons g gaps =>
      have hmore := (Cell.paired_ofText (g.map .char)).append (ih gaps)
        (.inr (head_ne_newline (head_spread chunks gaps)))
      rw [spread_cons]
      exact k.paired.append hmore (.inl (k.shape.last k.significant))

/-- The bytes of chunks that stand apart are those of their lexemes and gaps, and are read as their text. -/
theorem bytes_spread (chunks : List Chunk) (gaps : List (List Char)) :
    (Cell.join (spread chunks gaps)).bytes =
        (List.zipWith (fun l g => l ++ Text.bytes (g.map .char))
          (chunks.map fun k => (Cell.join k.cells).bytes) gaps).flatten ∧
      Text.ofBytes (Cell.join (spread chunks gaps)).bytes = Cell.join (spread chunks gaps) ∧
      Text.StartsClean (Cell.join (spread chunks gaps)) := by
  induction chunks generalizing gaps with
  | nil => exact ⟨rfl, rfl, nofun⟩
  | cons k chunks ih =>
    cases gaps with
    | nil => exact ⟨rfl, rfl, nofun⟩
    | cons g gaps =>
      obtain ⟨hbytes, hread, hclean⟩ := ih gaps
      have hgap := (Text.startsClean_chars g).append hclean
      rw [spread_cons, Cell.join_append, Cell.join_append, Cell.join_ofText]
      refine ⟨?_, ?_, k.shape.startsClean.append hgap⟩
      · rw [Text.bytes_append, Text.bytes_append, hbytes, List.map_cons, List.zipWith_cons_cons,
          List.flatten_cons, List.append_assoc]
      · rw [Text.bytes_append, Text.ofBytes_append hgap.bounded, k.faithful, Text.bytes_append,
          Text.ofBytes_append hclean.bounded, Text.ofBytes_chars, hread]

end Lexer

/-! ### Sources that are laid out again -/

/-- White space for `n` lexemes: what stands in front of the first, and what stands behind each. -/
structure Layout (n : Nat) where
  front : List Char
  gaps : List (List Char)
  length_gaps : gaps.length = n
  blank : ∀ c ∈ front, Text.isSpace c = true
  apart : Lexer.Apart gaps

/-- Lexemes, laid out. -/
def Layout.lay {n : Nat} (layout : Layout n) (lexemes : List (List UInt8)) : List UInt8 :=
  Text.bytes (layout.front.map .char) ++
    (List.zipWith (fun l g => l ++ Text.bytes (g.map .char)) lexemes layout.gaps).flatten

/-- The lexemes of the tokens of a source that mean something. -/
def lexemes (bytes : List UInt8) (tokens : List Token) : List (List UInt8) :=
  (Lexer.significant tokens).map fun t => t.span.bytes bytes

theorem ofText_lay {n : Nat} (layout : Layout n) (chunks : List Lexer.Chunk) :
    Cell.ofText (Text.ofBytes (layout.lay (chunks.map fun k => (Cell.join k.cells).bytes))) =
      Cell.ofText (layout.front.map .char) ++ Lexer.spread chunks layout.gaps := by
  obtain ⟨hbytes, hread, hclean⟩ := Lexer.bytes_spread chunks layout.gaps
  have hpaired : Cell.Paired (Cell.ofText (layout.front.map .char) ++ Lexer.spread chunks layout.gaps) :=
    (Cell.paired_ofText _).append (Lexer.paired_spread chunks layout.gaps)
      (.inr (Lexer.head_ne_newline (Lexer.head_spread chunks layout.gaps)))
  rw [Layout.lay, ← hbytes, Text.ofBytes_append hclean.bounded, hread, Text.ofBytes_chars,
    ← Cell.ofText_join hpaired, Cell.join_append, Cell.join_ofText]

/-- Lexemes that are laid out again make tokens that say the same words. -/
theorem tokenize_lay {bytes : List UInt8} {tokens : List Token}
    (h : tokenize (Text.ofBytes bytes) = .ok tokens) (layout : Layout (lexemes bytes tokens).length) :
    ∃ tokens', tokenize (Text.ofBytes (layout.lay (lexemes bytes tokens))) = .ok tokens' ∧
      tokens'.map Token.word = tokens.map Token.word := by
  obtain ⟨chunks, hwords, hlexemes⟩ := (tokenize_eq_ok_iff.mp h).chunks
    (show Place.first = Place.behind [] from rfl) (Cell.join_ofText _).symm (Cell.paired_ofText _)
  have hlen : layout.gaps.length = chunks.length := by
    rw [layout.length_gaps, lexemes, hlexemes, List.length_map]
  have hcells : Cell.ofText (Text.ofBytes (layout.lay (lexemes bytes tokens))) =
      Cell.ofText (layout.front.map .char) ++ Lexer.spread chunks layout.gaps :=
    (congrArg (fun ls => Cell.ofText (Text.ofBytes (layout.lay ls))) hlexemes).trans (ofText_lay layout chunks)
  obtain ⟨ts, hscans, hts⟩ :=
    Lexer.scans_spread hlen layout.apart (Cell.isSpace_ofText layout.blank) Place.first
  refine ⟨ts, tokenize_eq_ok_iff.mpr ?_, hts.trans hwords.symm⟩
  rw [hcells]
  exact hscans

end Anadil
