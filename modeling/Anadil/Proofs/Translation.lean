import Anadil.Compile
import Anadil.Proofs.Python.Retelling
import Anadil.Proofs.Token.Spacing
import Anadil.Proofs.Tree.Likeness

/-! # Translation and layout

What a source is translated to depends on the words of its tokens alone. Comments, blanks and line ends
only move the places that faults name. -/

namespace Anadil

variable {source : Text} {tokens : List Token}

/-- A fault without its place. -/
def Fault.unplaced : Fault → Fault
  | .lex _ _ text => .lex 0 0 text
  | .parse _ _ expected found => .parse 0 0 expected found
  | .compile stage _ _ text none => .compile stage 0 0 text none
  | .compile stage _ _ text (some cause) => .compile stage 0 0 text (some cause.unplaced)
  | f => f

/-! ### Stages -/

/-- A source that has tokens starts with a character that may start a piece. -/
theorem Lexer.Scans.head {p : Place} {cells : List Cell} {ts : List Token} (h : Scans p cells ts) :
    ∀ c ∈ cells.head?, isStart c.seen = true := by
  have hpiece : ∀ {kind : Kind} {front rest : List Cell}, Piece kind front rest →
      ∀ c ∈ (front ++ rest).head?, isStart c.seen = true := by
    rintro kind front rest hpiece c hc
    obtain ⟨d, ds, rfl, hstart, -⟩ := hpiece.shape.head
    cases hc
    exact hstart
  cases h with
  | stop h =>
    cases h with
    | done => exact nofun
    | piece h => exact hpiece h
  | token h piece =>
    cases h with
    | done => exact hpiece piece
    | piece h => exact hpiece h

theorem mark_cases (text : Text) :
    (withoutMark text = text ∧ ¬ Text.byteOrderMark <+: text) ∨ text = Text.byteOrderMark ++ withoutMark text := by
  unfold withoutMark Text.dropStart
  split
  · rename_i h
    obtain ⟨rest, rfl⟩ := List.isPrefixOf_iff_prefix.mp h
    right
    rw [List.drop_left]
  · rename_i h
    exact .inl ⟨rfl, fun hprefix => h (List.isPrefixOf_iff_prefix.mpr hprefix)⟩

/-- A byte order mark starts no piece, so there is none to skip. -/
theorem withoutMark_eq (h : tokenize source = .ok tokens) : withoutMark source = source := by
  have hhead := (tokenize_eq_ok_iff.mp h).head
  have hmark : Lexer.isStart '\uFEFF' = false := by decide +kernel
  unfold withoutMark Text.dropStart
  split
  · rename_i hprefix
    obtain ⟨rest, rfl⟩ := List.isPrefixOf_iff_prefix.mp hprefix
    have hcells : (Cell.ofText (Text.byteOrderMark ++ rest)).head? = some (.glyph (.char '\uFEFF')) := by
      change (Cell.ofText (.char '\uFEFF' :: rest)).head? = _
      rw [Cell.ofText]
      · rfl
      · rintro rest' h
        cases h
    have hstart := hhead _ hcells
    simp only [Cell.seen, Glyph.seen, hmark] at hstart
    cases hstart
  · rfl

/-- What becomes of tokens, before the stages are named. -/
def translate (style : Python.Style) (program : Except Parser.Failure Program) : Except Fault Text := do
  let p ← program.mapError Fault.ofParser
  (Python.generate style p).mapError Python.Failure.fault

theorem compile_eq (h : tokenize source = .ok tokens)
    (style : Python.Style) : compile style source = (translate style (parse tokens)).mapError Fault.staged := by
  have hscan : (Lexer.scanAll [] (withoutMark source)).1 = .ok tokens := by
    rw [withoutMark_eq h]
    exact h
  unfold compile compileLogged compileStages translate parse
  simp only [hscan]
  cases (Parser.run tokens).result with
  | error f => rfl
  | ok p =>
    change _ = ((Python.generate style p).mapError _).mapError _
    cases hgenerate : Python.generate style p with
    | error f =>
      simp only [hgenerate]
      rfl
    | ok text =>
      simp only [hgenerate]
      rfl

theorem unplaced_ofParser (f : Parser.Failure) :
    (Fault.ofParser f).staged.unplaced = (Fault.ofParser f.unplaced).staged.unplaced := by
  cases f <;> rfl

theorem unplaced_fault (f : Python.Failure) :
    f.fault.staged.unplaced = f.unplaced.fault.staged.unplaced := by
  cases f <;> rfl

theorem translate_bare (style : Python.Style) (program : Except Parser.Failure Program) :
    ((translate style program).mapError Fault.staged).mapError Fault.unplaced =
      ((translate style ((program.map Program.bare).mapError Parser.Failure.unplaced)).mapError
        Fault.staged).mapError Fault.unplaced := by
  cases program with
  | error f => exact congrArg Except.error (unplaced_ofParser f)
  | ok p =>
    have hbare := Python.generate_bare style p
    change (((Python.generate style p).mapError _).mapError _).mapError _ =
      (((Python.generate style p.bare).mapError _).mapError _).mapError _
    rw [hbare]
    cases Python.generate style p with
    | error f => exact congrArg Except.error (unplaced_fault f)
    | ok text => rfl

theorem compile_congr {source' : Text} {tokens' : List Token}
    (h : tokenize source = .ok tokens) (h' : tokenize source' = .ok tokens')
    (hwords : tokens.map Token.word = tokens'.map Token.word) (style : Python.Style) :
    (compile style source).mapError Fault.unplaced = (compile style source').mapError Fault.unplaced := by
  rw [compile_eq h, compile_eq h', translate_bare, Parser.parse_congr hwords, ← translate_bare]

/-- Laid out again, the lexemes of a source say the same words and are translated alike. -/
theorem compile_lay {bytes : List UInt8} {tokens : List Token}
    (h : tokenize (Text.ofBytes bytes) = .ok tokens) (layout : Layout (lexemes bytes tokens).length) :
    (∃ tokens', tokenize (Text.ofBytes (layout.lay (lexemes bytes tokens))) = .ok tokens' ∧
        tokens'.map Token.word = tokens.map Token.word) ∧
      ∀ style, (compile style (Text.ofBytes (layout.lay (lexemes bytes tokens)))).mapError Fault.unplaced =
        (compile style (Text.ofBytes bytes)).mapError Fault.unplaced := by
  obtain ⟨tokens', h', hwords⟩ := tokenize_lay h layout
  exact ⟨⟨tokens', h', hwords⟩, compile_congr h' h hwords⟩

/-- One lexeme a line, with white space around it. -/
def Layout.perLine (n : Nat) : Layout n where
  front := ['\u3000']
  gaps := List.replicate n ['\t', '\r', '\n']
  length_gaps := List.length_replicate
  blank := by
    intro c hc
    obtain rfl := List.mem_singleton.mp hc
    rfl
  apart := by
    refine ⟨fun g hg => ?_, fun g hg => ?_⟩
    · obtain rfl := List.eq_of_mem_replicate hg
      exact List.all_eq_true.mp rfl
    · obtain rfl := List.eq_of_mem_replicate (List.dropLast_subset _ hg)
      exact List.cons_ne_nil _ _

/-- A line without a blank, but for those in a string literal, and with a comment at its end. -/
def denseSource : Text := "eğer!x==2.5\x7byazdır(\"a b\")\x7d//c"

theorem compile_lay_denseSource :
    ∃ tokens, tokenize (Text.ofBytes denseSource.bytes) = .ok tokens ∧
      let source := Text.ofBytes
        ((Layout.perLine (lexemes denseSource.bytes tokens).length).lay (lexemes denseSource.bytes tokens))
      (∃ tokens', tokenize source = .ok tokens' ∧ tokens'.map Token.word = tokens.map Token.word) ∧
        ∀ style, (compile style source).mapError Fault.unplaced =
          (compile style (Text.ofBytes denseSource.bytes)).mapError Fault.unplaced := by
  have hok : (tokenize (Text.ofBytes denseSource.bytes)).isOk = true := by decide +kernel
  cases h : tokenize (Text.ofBytes denseSource.bytes) with
  | error e =>
    rw [h] at hok
    cases hok
  | ok tokens => exact ⟨tokens, rfl, compile_lay h (Layout.perLine _)⟩

end Anadil
