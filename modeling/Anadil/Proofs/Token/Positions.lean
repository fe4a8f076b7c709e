import Anadil.Cli.TokenList
import Anadil.Proofs.Text.Utf8
import Anadil.Proofs.Token.Spelling

/-! # Where tokens stand

The tokens of a source with what stands in front of them cover it without a gap or an overlap, and each
piece knows its line and its column. -/

namespace Anadil

variable {kind : Kind} {front : List Cell}

/-- The pieces of tokens in order: what stands in front of a token, then the token itself. -/
def pieces (tokens : List Token) : List Lexeme := tokens.flatMap fun t => t.trivia ++ [t.toLexeme]

/-- The bytes of a source that a span covers. -/
def Span.bytes (s : Span) (source : List UInt8) : List UInt8 :=
  (source.drop s.start.toNat).take (s.stop - s.start).toNat

/-- Spans that lie side by side from one byte to another. -/
def Tiles : Int → List Span → Int → Prop
  | a, [], b => a = b
  | a, s :: ss, b => s.start = a ∧ a ≤ s.stop ∧ Tiles s.stop ss b

/-- The place behind a text that starts a source: lines end in line feeds, and columns count glyphs. -/
def Place.behind (before : Text) : Place where
  line := 1 + before.count (.char '\n')
  column := 1 + (before.reverse.takeWhile (· != .char '\n')).length
  offset := before.width

/-! ### Places -/

theorem Cell.join_ofText (t : Text) : Cell.join (Cell.ofText t) = t := by
  fun_induction Cell.ofText t with
  | case1 => rfl
  | case2 rest ih => rw [Cell.join_cons, ih]; rfl
  | case3 g rest _ ih => rw [Cell.join_cons, ih]; rfl

theorem Cell.width_text (c : Cell) : c.text.width = c.width := by
  cases c with
  | glyph g => exact Nat.add_zero _
  | crlf => rfl

theorem Glyph.seen_eq_newline {g : Glyph} : g.seen = '\n' ↔ g = .char '\n' := by
  cases g with
  | char c => exact (Glyph.char.injEq c '\n').symm ▸ Iff.rfl
  | byte b => exact ⟨fun h => absurd h (by decide : Glyph.replacement ≠ '\n'), fun h => by cases h⟩

theorem Place.behind_newline (before : Text) :
    Place.behind (before ++ [.char '\n']) = ⟨(Place.behind before).line + 1, 1, before.width + 1⟩ := by
  simp only [Place.behind, List.count_append, List.reverse_append, Text.width_append]
  rfl

theorem Place.behind_glyph (before : Text) {g : Glyph} (h : g ≠ .char '\n') :
    Place.behind (before ++ [g]) =
      ⟨(Place.behind before).line, (Place.behind before).column + 1, before.width + g.width⟩ := by
  have hcount : [g].count (.char '\n') = 0 := List.count_eq_zero.mpr (by simpa using h.symm)
  have hrun : (before ++ [g]).reverse.takeWhile (· != .char '\n') =
      g :: before.reverse.takeWhile (· != .char '\n') := by
    have hne : (g != .char '\n') = true := bne_iff_ne.mpr h
    rw [List.reverse_append, List.reverse_singleton, List.singleton_append, List.takeWhile_cons, if_pos hne]
  simp only [Place.behind, List.count_append, hcount, hrun, List.length_cons, Text.width_append]
  rfl

/-- A cell moves the place behind a text as its own text does. -/
theorem Place.behind_after (before : Text) (c : Cell) :
    (Place.behind before).after c = Place.behind (before ++ c.text) := by
  cases c with
  | glyph g =>
    by_cases h : g = .char '\n'
    · subst h
      exact (Place.behind_newline before).symm
    · have hseen : ¬ (Cell.glyph g).seen = '\n' := fun hg => h (Glyph.seen_eq_newline.mp hg)
      rw [Place.after, if_neg hseen]
      exact (Place.behind_glyph before h).symm
  | crlf =>
    -- the carriage return counts on its line, which ends right behind it
    have hsplit : before ++ Cell.crlf.text = (before ++ [.char '\r']) ++ [.char '\n'] :=
      (List.append_assoc before [.char '\r'] [.char '\n']).symm
    rw [hsplit, Place.behind_newline, Place.behind_glyph before (by decide), Text.width_append]
    rfl

theorem Place.behind_afterAll (before : Text) (cells : List Cell) :
    (Place.behind before).afterAll cells = Place.behind (before ++ Cell.join cells) := by
  induction cells generalizing before with
  | nil => rw [show Cell.join [] = [] from rfl, List.append_nil]; rfl
  | cons c cells ih =>
    rw [Cell.join_cons, ← List.append_assoc, ← ih, ← Place.behind_after]
    rfl

namespace Lexer

/-! ### Pieces of a text -/

theorem Shape.starts (h : Shape kind front) : ∃ c t, Cell.join front = .char c :: t := by
  obtain ⟨c, cs, rfl, hstart, -⟩ := h.head
  have hstray : isStart Glyph.replacement = false := by decide +kernel
  rw [Cell.join_cons]
  cases c with
  | glyph g =>
    cases g with
    | char d => exact ⟨d, Cell.join cs, rfl⟩
    | byte b =>
      have hbyte : isStart Glyph.replacement = true := hstart
      rw [hstray] at hbyte
      cases hbyte
  | crlf => exact ⟨'\r', .char '\n' :: Cell.join cs, rfl⟩

theorem Shape.startsClean (h : Shape kind front) : Text.StartsClean (Cell.join front) := by
  obtain ⟨c, t, ht⟩ := h.starts
  rw [ht]
  rintro g hg
  cases hg
  exact ⟨c, rfl⟩

/-- Lexemes whose spans divide `source`, which stands behind `before`, into pieces that start with
characters. -/
inductive Covers : Text → Text → List Lexeme → Prop
  | nil (before : Text) : Covers before [] []
  | cons {before front rest : Text} {l : Lexeme} {ls : List Lexeme}
      (hspan : l.span = ⟨(Place.behind before).offset, (Place.behind (before ++ front)).offset,
        (Place.behind before).line, (Place.behind before).column⟩)
      (hclean : Text.StartsClean (front ++ rest)) (more : Covers (before ++ front) rest ls) :
      Covers before (front ++ rest) (l :: ls)

section Covers
variable {before source : Text} {ls : List Lexeme}

theorem Covers.startsClean (h : Covers before source ls) : Text.StartsClean source := by
  cases h with
  | nil => exact nofun
  | cons hspan hclean more => exact hclean

/-- A token covers its cells in front of what the others cover. -/
theorem Covers.piece {rest : Text} {l : Lexeme} (h : Shape kind front)
    (hspan : l.span = (lexeme kind (Place.behind before) front).span)
    (more : Covers (before ++ Cell.join front) rest ls) :
    Covers before (Cell.join front ++ rest) (l :: ls) := by
  refine .cons ?_ (h.startsClean.append more.startsClean) more
  rw [hspan, ← Place.behind_afterAll]
  rfl

theorem Covers.tiles (h : Covers before source ls) :
    Tiles before.width (ls.map Lexeme.span) (before ++ source).width := by
  induction h with
  | nil before => rw [List.append_nil]; rfl
  | @cons before front rest l ls hspan hclean more ih =>
    rw [← List.append_assoc]
    refine ⟨by rw [hspan]; rfl, ?_, ?_⟩
    · simp only [hspan, Place.behind, Text.width_append]
      omega
    · rw [hspan]
      exact ih

/-- A span that begins and ends where a part of the text does has the bytes of the part. -/
theorem bytes_between {s : Span} {before front rest : Text} {bytes : List UInt8}
    (hbytes : bytes = (before ++ (front ++ rest)).bytes) (hstart : s.start = before.width)
    (hstop : s.stop = (before ++ front).width) : s.bytes bytes = front.bytes := by
  have hdrop : bytes.drop before.width = front.bytes ++ rest.bytes := by
    rw [hbytes, Text.bytes_append, Text.bytes_append, ← Text.length_bytes, List.drop_left]
  have hlen : ((before ++ front).width - before.width : Int).toNat = front.bytes.length := by
    rw [Text.width_append, Text.length_bytes]
    omega
  simp only [Span.bytes, hstart, hstop, Int.toNat_natCast, hdrop, hlen, List.take_left]

/-- What lexemes cover, joined, is the source. -/
theorem Covers.joined (h : Covers before source ls) (bytes : List UInt8)
    (hbytes : bytes = (before ++ source).bytes) :
    ls.flatMap (fun l => l.span.bytes bytes) = source.bytes := by
  induction h with
  | nil before => rfl
  | @cons before front rest l ls hspan hclean more ih =>
    have hfront : l.span.bytes bytes = front.bytes := by
      rw [hspan]
      exact bytes_between hbytes rfl rfl
    rw [← List.append_assoc] at hbytes
    rw [List.flatMap_cons, hfront, ih hbytes, Text.bytes_append]

/-- Every lexeme begins at its line and column. -/
theorem Covers.placed (h : Covers before source ls) : ∀ l ∈ ls, ∃ front rest, source = front ++ rest ∧
    Text.StartsClean rest ∧ l.span.start = (Place.behind (before ++ front)).offset ∧
    l.span.line = (Place.behind (before ++ front)).line ∧
    l.span.column = (Place.behind (before ++ front)).column := by
  induction h with
  | nil before => exact List.forall_mem_nil _
  | @cons before front rest l ls hspan hclean more ih =>
    intro m hm
    rcases List.mem_cons.mp hm with rfl | hm
    · refine ⟨[], front ++ rest, rfl, hclean, ?_⟩
      rw [hspan, List.append_nil]
      exact ⟨rfl, rfl, rfl⟩
    · obtain ⟨front', rest', rfl, hclean', hplace⟩ := ih m hm
      refine ⟨front ++ front', rest', (List.append_assoc ..).symm, hclean', ?_⟩
      rw [← List.append_assoc]
      exact hplace

end Covers

/-! ### Pieces of a source -/

theorem pieces_cons (t : Token) (ts : List Token) :
    pieces (t :: ts) = t.trivia ++ t.toLexeme :: pieces ts := by
  simp [pieces]

section Source
variable {before : Text} {p p' : Place} {cells rest : List Cell} {ls : List Lexeme} {ts : List Token}

/-- What is skipped is covered too. -/
theorem Skips.covers (h : Skips p cells ls p' rest) (hp : p = Place.behind before) :
    ∃ before', p' = Place.behind before' ∧
      ∀ ms, Covers before' (Cell.join rest) ms → Covers before (Cell.join cells) (ls ++ ms) := by
  induction h generalizing before with
  | done p cells => exact ⟨before, hp, fun ms hms => hms⟩
  | @piece p p' kind front rest cells ls h hkind more ih =>
    subst hp
    obtain ⟨before', hp', hms⟩ := ih (Place.behind_afterAll before front)
    refine ⟨before', hp', fun ms hcovers => ?_⟩
    rw [Cell.join_append]
    exact .piece h.shape rfl (hms ms hcovers)

theorem Scans.covers (h : Scans p cells ts) (hp : p = Place.behind before) :
    Covers before (Cell.join cells) (pieces ts) := by
  induction h generalizing before with
  | stop h =>
    obtain ⟨before', rfl, hms⟩ := h.covers hp
    rw [pieces_cons]
    refine hms _ (@Covers.cons before' [] [] _ _ ?_ nofun (.nil _))
    rw [List.append_nil]
    rfl
  | @token p p' kind cells front rest ls t ts h piece hkind finished more ih =>
    obtain ⟨before', rfl, hms⟩ := h.covers hp
    obtain ⟨hspan, htrivia, -⟩ := finish_ok finished
    rw [pieces_cons, htrivia]
    refine hms _ ?_
    rw [Cell.join_append]
    exact .piece piece.shape hspan (ih (Place.behind_afterAll before' front))

theorem offset_afterAll (p : Place) (cells : List Cell) :
    (p.afterAll cells).offset = p.offset + (Cell.join cells).width := by
  induction cells generalizing p with
  | nil => rfl
  | cons c cells ih =>
    have hafter : (p.after c).offset = p.offset + c.width := by
      unfold Place.after
      split <;> rfl
    have hcons : p.afterAll (c :: cells) = (p.after c).afterAll cells := rfl
    rw [hcons, ih, hafter, Cell.join_cons, Text.width_append, Cell.width_text, Nat.add_assoc]

theorem lexeme_solid (h : Shape kind front) (p : Place) :
    (lexeme kind p front).span.start < (lexeme kind p front).span.stop := by
  obtain ⟨c, t, ht⟩ := h.starts
  have hpos : 0 < (Cell.join front).width := by
    rw [ht, Text.width_cons]
    have := Glyph.width_pos (.char c)
    omega
  have hstop := offset_afterAll p front
  simp only [lexeme]
  omega

theorem Skips.solid (h : Skips p cells ls p' rest) : ∀ l ∈ ls, l.span.start < l.span.stop := by
  induction h with
  | done p cells => exact List.forall_mem_nil _
  | piece h hkind more ih => exact List.forall_mem_cons.mpr ⟨lexeme_solid h.shape _, ih⟩

theorem Scans.solid (h : Scans p cells ts) : ∀ t ∈ ts,
    (∀ l ∈ t.trivia, l.span.start < l.span.stop) ∧
      (t.kind ≠ .endOfInput → t.span.start < t.span.stop) := by
  induction h with
  | stop h =>
    intro t ht
    obtain rfl := List.mem_singleton.mp ht
    exact ⟨h.solid, fun hk => absurd rfl hk⟩
  | token h piece hkind finished more ih =>
    obtain ⟨hspan, htrivia, -⟩ := finish_ok finished
    refine List.forall_mem_cons.mpr ⟨⟨htrivia ▸ h.solid, fun _ => ?_⟩, ih⟩
    rw [hspan]
    exact lexeme_solid piece.shape _

theorem Scans.last (h : Scans p cells ts) : ∃ init t, ts = init ++ [t] ∧ t.kind = .endOfInput ∧
    ∀ u ∈ init, u.kind ≠ .endOfInput := by
  induction h with
  | stop h => exact ⟨[], _, rfl, rfl, List.forall_mem_nil _⟩
  | token h piece hkind finished more ih =>
    obtain ⟨init, t, rfl, ht, hinit⟩ := ih
    exact ⟨_ :: init, t, rfl, ht, List.forall_mem_cons.mpr ⟨token_kind_ne piece finished, hinit⟩⟩

theorem Scans.length (h : Scans p cells ts) : ts.length ≤ cells.length + 1 := by
  induction h with
  | stop h => exact Nat.le_add_left 1 _
  | @token p p' kind cells front rest ls t ts h piece hkind finished more ih =>
    obtain ⟨passed, rfl, -⟩ := h.passed
    have hfront : 0 < front.length := by
      obtain ⟨c, cells, more, -, rfl, -⟩ := piece
      exact Nat.succ_pos _
    simp only [List.length_cons, List.length_append]
    omega

/-- Listing a source token by token lists all its tokens, if it may list that many. -/
theorem Scans.listFrom (h : Scans p cells ts) (choice : Cli.TokenList.Choice) (name source : Text)
    {fuel : Nat} (n : Nat) (hfuel : ts.length ≤ fuel) :
    (Cli.TokenList.listFrom choice source fuel n ⟨name, p, cells, none⟩).outcome = .ok (n + ts.length) ∧
      (Cli.TokenList.listFrom choice source fuel n ⟨name, p, cells, none⟩).text =
        (ts.zipIdx n).flatMap fun (t, k) => Cli.TokenList.tokenLines choice name source (k + 1) t := by
  induction h generalizing fuel n with
  | stop h =>
    obtain ⟨fuel, rfl⟩ : ∃ f, fuel = f + 1 := ⟨fuel - 1, by simp only [List.length_singleton] at hfuel; omega⟩
    have hnext := h.next_stop name
    simp only [Cli.TokenList.listFrom, Scanner.scan, hnext, endToken, ↓reduceIte, List.zipIdx_singleton,
      List.flatMap_singleton, List.length_singleton, and_self]
  | token h piece hkind finished more ih =>
    rw [List.length_cons] at hfuel
    obtain ⟨fuel, rfl⟩ : ∃ f, fuel = f + 1 := ⟨fuel - 1, by omega⟩
    obtain ⟨houtcome, hplace, hrest⟩ := h.next_token piece hkind finished name
    have hne := token_kind_ne piece finished
    obtain ⟨hcount, htext⟩ := @ih fuel (n + 1) (by omega)
    simp only [Cli.TokenList.listFrom, Scanner.scan, houtcome, hplace, hrest, hne, ↓reduceIte, hcount, htext,
      List.zipIdx_cons, List.flatMap_cons, List.length_cons]
    exact ⟨by rw [Nat.add_assoc, Nat.add_comm 1], trivial⟩

end Source

end Lexer

theorem Cell.length_le_width (cells : List Cell) : cells.length ≤ (Cell.join cells).width := by
  induction cells with
  | nil => exact Nat.le_refl _
  | cons c cells ih =>
    have hpos : 0 < c.width := by
      cases c with
      | glyph g => exact Glyph.width_pos g
      | crlf => exact Nat.two_pos
    rw [Cell.join_cons, Text.width_append, Cell.width_text, List.length_cons]
    omega

/-- What tokens say of the bytes that they were found in. -/
structure Lossless (bytes : List UInt8) (tokens : List Token) : Prop where
  /-- One token is the end of input, and it is the last. -/
  last : ∃ init t, tokens = init ++ [t] ∧ t.kind = .endOfInput ∧ ∀ u ∈ init, u.kind ≠ .endOfInput
  /-- The pieces lie side by side from the first byte to the last. -/
  tiles : Tiles 0 ((pieces tokens).map Lexeme.span) bytes.length
  joined : (pieces tokens).flatMap (fun l => l.span.bytes bytes) = bytes
  /-- Only the end of input is empty. -/
  solid : ∀ t ∈ tokens, (∀ l ∈ t.trivia, l.span.start < l.span.stop) ∧
    (t.kind ≠ .endOfInput → t.span.start < t.span.stop)
  few : tokens.length ≤ bytes.length + 1
  /-- Listing at most one token more than there are bytes lists them all. -/
  listed : ∀ (choice : Cli.TokenList.Choice) (name : Text),
    let source := Text.ofBytes bytes
    let listing := Cli.TokenList.listFrom choice source (source.width + 1) 0 (.ofText name source)
    listing.outcome = .ok tokens.length ∧
      listing.text = Cli.TokenList.lines choice name source tokens
  /-- Lines and columns are counted on the bytes in front of a piece. -/
  placed : ∀ l ∈ pieces tokens,
    let before := Text.ofBytes (bytes.take l.span.start.toNat)
    l.span.line = 1 + before.count (.char '\n') ∧
      l.span.column = 1 + (before.reverse.takeWhile (· != .char '\n')).length

/-- Nothing of a source is lost in its tokens. -/
theorem tokenize_lossless {bytes : List UInt8} {tokens : List Token}
    (h : tokenize (Text.ofBytes bytes) = .ok tokens) : Lossless bytes tokens := by
  have hscans := tokenize_eq_ok_iff.mp h
  have hcovers := hscans.covers (show Place.first = Place.behind [] from rfl)
  rw [Cell.join_ofText] at hcovers
  have hwidth : (Text.ofBytes bytes).width = bytes.length := by
    rw [← Text.length_bytes, Text.bytes_ofBytes]
  have hlen : tokens.length ≤ (Text.ofBytes bytes).width + 1 := by
    have hcells := Cell.length_le_width (Cell.ofText (Text.ofBytes bytes))
    rw [Cell.join_ofText] at hcells
    exact Nat.le_trans hscans.length (Nat.succ_le_succ hcells)
  refine ⟨hscans.last, ?_, ?_, hscans.solid, hwidth ▸ hlen, ?_, ?_⟩
  · have htiles := hcovers.tiles
    rw [List.nil_append, hwidth] at htiles
    exact htiles
  · have hjoined := hcovers.joined bytes (Text.bytes_ofBytes bytes).symm
    rw [Text.bytes_ofBytes] at hjoined
    exact hjoined
  · intro choice name
    obtain ⟨hcount, htext⟩ := hscans.listFrom choice name (Text.ofBytes bytes) 0 hlen
    rw [Nat.zero_add] at hcount
    exact ⟨hcount, htext⟩
  · intro l hl
    obtain ⟨front, rest, hsource, hclean, hstart, hline, hcolumn⟩ := hcovers.placed l hl
    rw [List.nil_append] at hstart hline hcolumn
    have hbefore : Text.ofBytes (bytes.take l.span.start.toNat) = front := by
      have htake : bytes.take l.span.start.toNat = front.bytes := by
        rw [hstart, ← Text.bytes_ofBytes bytes, hsource, Text.bytes_append]
        exact List.take_left' (Text.length_bytes front)
      rw [htake]
      exact (Text.ofBytes_parts hsource hclean).1
    rw [hbefore]
    exact ⟨hline, hcolumn⟩

/-- A letter of two bytes, a line that ends in two bytes, a stray byte in a comment and another one in a
string literal. -/
def strayBytes : List UInt8 :=
  [0xC5, 0x9F, 0x3D, 0x31, 0x0D, 0x0A, 0x2F, 0x2F, 0xFF, 0x0A, 0x22, 0xC3, 0x22]

theorem tokenize_lossless_strayBytes :
    ∃ tokens, tokenize (Text.ofBytes strayBytes) = .ok tokens ∧ Lossless strayBytes tokens := by
  have hok : (tokenize (Text.ofBytes strayBytes)).isOk = true := by decide +kernel
  cases h : tokenize (Text.ofBytes strayBytes) with
  | error e =>
    rw [h] at hok
    cases hok
  | ok tokens => exact ⟨tokens, rfl, tokenize_lossless h⟩

end Anadil
