import Anadil.Proofs.Outcome
import Anadil.Proofs.Token.Breaks
import Anadil.Proofs.Token.Stops
import Anadil.Proofs.Tree.Blame

/-! # Where an end of input is put

Tokens without an end of input get one behind the last of them, as many columns on as its text has glyphs. That is
where its lexeme ends if the text is the lexeme. But a string literal loses its quotation marks and a name is put in
normal form, so that the end is put two columns short behind the first, and behind the second where the normal form
would end. -/

namespace Anadil

/-- What the text of a token keeps of its lexeme. -/
inductive Token.Keeps (t : Token) (lexeme : Text) : Prop
  | all (hkind : t.kind ≠ .string) (htext : t.text = lexeme)
  | content (hkind : t.kind = .string) (htext : Text.inQuotes t.text = lexeme)
  | form (hkind : t.kind = Kind.ofName t.text) (htext : t.text = (Text.normalize lexeme.chars).map .char)

/-- A token stands in a source as a lexeme behind a text. -/
structure Token.Stands (t : Token) (source before lexeme : Text) : Prop where
  inside : before ++ lexeme <+: source
  span : t.span = ⟨before.width, (before ++ lexeme).width, (Place.behind before).line, (Place.behind before).column⟩
  oneLine : .char '\n' ∉ lexeme
  keeps : t.Keeps lexeme

namespace Lexer

theorem finish_keeps {kind : Kind} {front : List Cell} {p : Place} {trivia : List Lexeme} {t : Token}
    (h : Shape kind front) (hfinish : finish (lexeme kind p front) trivia = .ok t) : t.Keeps (Cell.join front) := by
  unfold finish at hfinish
  split at hfinish
  · dsimp only at hfinish
    split at hfinish
    · cases hfinish
    · cases hfinish
      exact .form rfl rfl
  · rename_i hkind
    cases hfinish
    refine .content hkind ?_
    obtain rfl : kind = .string := hkind
    cases h with
    | string hc hcs hquote =>
      rename_i cs
      have hjoin : ∀ c quote : Cell, c.seen = '"' → quote.seen = '"' →
          Cell.join (c :: (cs ++ [quote])) = Text.inQuotes (Cell.join cs) := by
        intro c quote hc hquote
        rw [Cell.join_cons, Cell.join_append, text_of_seen hc (by decide), Cell.join_cons,
          text_of_seen hquote (by decide)]
        rfl
      change Text.inQuotes ((Cell.join _).drop 1).dropLast = _
      rw [hjoin _ _ hc hquote]
      simp [Text.inQuotes]
    | double h => exact (double?_ne h (by decide)).elim
    | single h => exact (single?_ne h (by decide)).elim
  · rename_i hstring
    cases hfinish
    exact .all hstring rfl

end Lexer

theorem tokenize_stands {source : Text} {tokens : List Token} (h : tokenize source = .ok tokens) :
    ∀ t ∈ tokens, t.kind ≠ .endOfInput → ∃ before lexeme, t.Stands source before lexeme := by
  intro t ht htkind
  obtain ⟨passed, kind, front, rest, trivia, hcells, hpiece, hkind, hfinish⟩ :=
    (tokenize_eq_ok_iff.mp h).made t ht htkind
  have hplace : Place.first.afterAll passed = Place.behind (Cell.join passed) := Place.behind_afterAll [] passed
  rw [hplace] at hfinish
  refine ⟨Cell.join passed, Cell.join front, ⟨Cell.join rest, ?_⟩, ?_, fun hmem => ?_,
    Lexer.finish_keeps hpiece.shape hfinish⟩
  · rw [List.append_assoc, ← Cell.join_append, ← Cell.join_append, ← hcells, Cell.join_ofText]
  · rw [(Lexer.finish_ok hfinish).1, Lexer.lexeme, Place.behind_afterAll]
    rfl
  · obtain ⟨c, hc, hmem⟩ := List.mem_flatMap.mp hmem
    have hspace : kind ≠ .space := by
      rintro rfl
      cases hkind
    exact Cell.seen_ne_newline (hpiece.shape.oneLine hspace c hc) hmem rfl

theorem Place.behind_oneLine (before : Text) {t : Text} (h : .char '\n' ∉ t) :
    (Place.behind (before ++ t)).line = (Place.behind before).line ∧
      (Place.behind (before ++ t)).column = (Place.behind before).column + t.length := by
  have hjoin : Cell.join (t.map .glyph) = t := by
    rw [Cell.join, List.flatMap_map]
    exact List.flatMap_singleton' t
  have hseen : ∀ c ∈ t.map Cell.glyph, c.seen ≠ '\n' := by
    intro c hc hnewline
    obtain ⟨g, hg, rfl⟩ := List.mem_map.mp hc
    exact h (Glyph.seen_eq_newline.mp hnewline ▸ hg)
  have hafter := Place.afterAll_line hseen (Place.behind before)
  rwa [Place.behind_afterAll, hjoin, List.length_map] at hafter

namespace Parser

theorem describe_end {t : Token} (h : t.describe <+: ("end of input" : String)) : t.kind = .endOfInput := by
  obtain ⟨rest, hrest⟩ := h
  have hhead : (t.describe ++ rest).head? = some (.char 'e') := by
    rw [hrest]
    rfl
  unfold Lexeme.describe at hhead
  split at hhead
  · cases hhead
  · cases hhead
  · cases hhead
  · assumption
  · cases hhead

/-- The first tokens of a source that are refused for the end of input are refused on the line of the last of them.
The column is the one behind its lexeme if its text is the lexeme; it is two columns short of that if the token is a
string literal, and off by the change in length if the token is a name that was put in normal form. -/
theorem parse_take_place {source : Text} {tokens : List Token} {n : Nat} {r : Refusal}
    (h : tokenize source = .ok tokens) (hpos : 0 < n) (hn : n < tokens.length)
    (hrefused : parse (tokens.take n) = .error (.refused r)) (hfound : r.found = ("end of input" : String)) :
    ∃ t before lexeme, tokens[n - 1]? = some t ∧ t.Stands source before lexeme ∧
      r.line = (Place.behind (before ++ lexeme)).line ∧
      ((t.kind ≠ .string ∧ t.text = lexeme ∧ r.column = (Place.behind (before ++ lexeme)).column) ∨
       (t.kind = .string ∧ lexeme = Text.inQuotes t.text ∧ r.column + 2 = (Place.behind (before ++ lexeme)).column) ∨
       (t.kind = Kind.ofName t.text ∧ t.text = (Text.normalize lexeme.chars).map .char ∧
        r.column + lexeme.length =
          (Place.behind (before ++ lexeme)).column + (Text.normalize lexeme.chars).length)) := by
  obtain ⟨init, e, rfl, -, hinit⟩ := (tokenize_eq_ok_iff.mp h).last
  have hle : n ≤ init.length := by
    rw [List.length_append, List.length_singleton] at hn
    omega
  rw [List.take_append_of_le_length hle] at hrefused
  obtain ⟨t, ht⟩ : ∃ t, init[n - 1]? = some t := ⟨_, List.getElem?_eq_getElem (by omega)⟩
  have hlast : (init.take n).getLast? = some t := by
    rw [List.getLast?_take, if_neg (by omega), ht]
    rfl
  have hmem := List.mem_of_getElem? ht
  have hnot := hinit t hmem
  -- none of the tokens is an end of input, so the refusal is at the one behind them
  obtain ⟨u, hu, hat⟩ := parse_refused hrefused
  have hend : u = endBehind (init.take n) := by
    rcases List.mem_cons.mp hu with hu | hu
    · exact hu
    · exact absurd (describe_end (hfound ▸ hat.found)) (hinit u (List.mem_of_mem_take hu))
  obtain ⟨before, lexeme, hstands⟩ := tokenize_stands h t (List.mem_append_left _ hmem) hnot
  obtain ⟨hline, hcolumn⟩ := Place.behind_oneLine before hstands.oneLine
  have hspan : u.span.line = (Place.behind before).line ∧
      u.span.column = (Place.behind before).column + t.text.length := by
    rw [hend, endBehind, hlast]
    dsimp only
    rw [if_neg hnot, hstands.span]
    exact ⟨rfl, rfl⟩
  refine ⟨t, before, lexeme, ?_, hstands, ?_, ?_⟩
  · rw [List.getElem?_append_left (by omega), ht]
  · rw [hat.line, hspan.1, hline]
  · have hr := hat.column.trans hspan.2
    rcases hstands.keeps with ⟨hkind, htext⟩ | ⟨hkind, htext⟩ | ⟨hkind, htext⟩
    · refine .inl ⟨hkind, htext, ?_⟩
      rw [hr, hcolumn, htext]
      rfl
    · refine .inr (.inl ⟨hkind, htext.symm, ?_⟩)
      have hlength : lexeme.length = t.text.length + 2 := by
        rw [← htext, Text.inQuotes, List.length_append, List.length_cons]
        rfl
      omega
    · refine .inr (.inr ⟨hkind, htext, ?_⟩)
      have hlength : t.text.length = (Text.normalize lexeme.chars).length := by
        rw [htext, List.length_map]
      omega

/-- A name whose normal form is shorter than itself, in parentheses. -/
def accented : List Token := [⟨⟨.leftParen, "(", ⟨0, 1, 1, 1⟩⟩, []⟩, ⟨⟨.identifier, "\u00E9", ⟨1, 4, 1, 2⟩⟩, []⟩,
  ⟨⟨.rightParen, ")", ⟨4, 5, 1, 4⟩⟩, []⟩, ⟨⟨.endOfInput, [], ⟨5, 5, 1, 5⟩⟩, []⟩]

theorem parse_take_place_accented : ∃ r, tokenize ("(e\u0301)" : String) = .ok accented ∧
    parse (accented.take 2) = .error (.refused r) ∧ r.found = ("end of input" : String) ∧
    ∃ t before lexeme, accented[1]? = some t ∧ t.Stands ("(e\u0301)" : String) before lexeme ∧
      r.line = (Place.behind (before ++ lexeme)).line ∧
      ((t.kind ≠ .string ∧ t.text = lexeme ∧ r.column = (Place.behind (before ++ lexeme)).column) ∨
       (t.kind = .string ∧ lexeme = Text.inQuotes t.text ∧ r.column + 2 = (Place.behind (before ++ lexeme)).column) ∨
       (t.kind = Kind.ofName t.text ∧ t.text = (Text.normalize lexeme.chars).map .char ∧
        r.column + lexeme.length =
          (Place.behind (before ++ lexeme)).column + (Text.normalize lexeme.chars).length)) := by
  have htokens : tokenize ("(e\u0301)" : String) = .ok accented := toOption_eq_some.mp (by decide +kernel)
  exact ⟨_, htokens, rfl, rfl, @parse_take_place _ _ 2 _ htokens (by decide) (by decide) rfl rfl⟩

/-- The tokens of `yazdır("ab")`. -/
def printed : List Token := [⟨⟨.printWord, "yazdır", ⟨0, 7, 1, 1⟩⟩, []⟩, ⟨⟨.leftParen, "(", ⟨7, 8, 1, 7⟩⟩, []⟩,
  ⟨⟨.string, "ab", ⟨8, 12, 1, 8⟩⟩, []⟩, ⟨⟨.rightParen, ")", ⟨12, 13, 1, 12⟩⟩, []⟩,
  ⟨⟨.endOfInput, [], ⟨13, 13, 1, 13⟩⟩, []⟩]

/-- Behind a string literal, the end of input is put in front of where the literal ends. -/
theorem end_falls_short : ∃ r t, tokenize ("yazdır(\"ab\")" : String) = .ok printed ∧
    parse (printed.take 3) = .error (.refused r) ∧ r.found = ("end of input" : String) ∧ printed[2]? = some t ∧
    t.Stands ("yazdır(\"ab\")" : String) ("yazdır(" : String) ("\"ab\"" : String) ∧
    r.column < (Place.behind (Text.ofString "yazdır(" ++ Text.ofString "\"ab\"")).column := by
  refine ⟨_, _, toOption_eq_some.mp (by decide +kernel), rfl, rfl, rfl, ?_, by decide⟩
  exact ⟨⟨(")" : String), by decide⟩, by decide, by decide, .content rfl rfl⟩

end Parser

end Anadil
