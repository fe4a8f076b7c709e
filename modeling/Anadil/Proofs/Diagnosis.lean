import Anadil.Diagnostic
import Anadil.Proofs.Python.Initialisers
import Anadil.Proofs.Text.Lines
import Anadil.Proofs.Token.Stops
import Anadil.Proofs.Translation
import Anadil.Proofs.Tree.Blame
import Anadil.Proofs.Tree.Fuel

/-! # Where a source is wrong

Whichever stage refuses a source, it does so at one byte of it (`BlamedAt`): at the piece that has a flaw, at the
token that does not fit, at the end, or at the return that Python does not have. The diagnostic names the line and the column
of that byte, and no other byte has the same. -/

namespace Anadil

/-- The bytes that a byte order mark takes in front of a source. -/
def markWidth (source : Text) : Nat := source.width - (withoutMark source).width

/-- The byte at which a source is found wrong. -/
inductive BlamedAt (source : Text) : Nat → Prop
  /-- A piece has a flaw. -/
  | lexer {r : Lexer.Refusal} (hflaw : tokenize (withoutMark source) = .error r) :
      BlamedAt source (markWidth source + r.place.offset)
  /-- A token does not fit. -/
  | parser {tokens : List Token} {r : Parser.Refusal} {t : Token}
      (htokens : tokenize (withoutMark source) = .ok tokens) (hrefused : parse tokens = .error (.refused r))
      (ht : t ∈ tokens) (hkind : t.kind ≠ .endOfInput) (hat : r.At t) :
      BlamedAt source (markWidth source + t.span.start.toNat)
  /-- The source ends too early. -/
  | finish {tokens : List Token} {r : Parser.Refusal} {t : Token}
      (htokens : tokenize (withoutMark source) = .ok tokens) (hrefused : parse tokens = .error (.refused r))
      (ht : t ∈ tokens) (hkind : t.kind = .endOfInput) (hat : r.At t) : BlamedAt source source.width
  /-- A return cannot be written in Python. -/
  | generator {tokens : List Token} {p : Program} {name : Text} {frames : List Frame} {span : Span}
      {value : Option Expr} (htokens : tokenize (withoutMark source) = .ok tokens) (hp : parse tokens = .ok p)
      (hrefused : Python.generate Python.Style.default p =
        .error (.constructorReturns name span.line span.column))
      (hret : p.Stands frames (.ret span value)) : BlamedAt source (markWidth source + span.start.toNat)

/-! ### The stages -/

section Stages
variable {source : Text} {tokens : List Token} {p : Program}

theorem compileStages_of_tokens (h : tokenize (withoutMark source) = .ok tokens) (style : Python.Style) :
    (compileStages style source).1 = translate style (parse tokens) := by
  have hscan : (Lexer.scanAll [] (withoutMark source)).1 = .ok tokens := h
  unfold compileStages translate parse
  simp only [hscan]
  cases (Parser.run tokens).result with
  | error f => rfl
  | ok p => rfl

theorem check_lexer {r : Lexer.Refusal} (h : tokenize (withoutMark source) = .error r) :
    check source = [Diagnostic.ofFault (Fault.ofLexer r)] := by
  have hscan : (Lexer.scanAll [] (withoutMark source)).1 = .error r := h
  unfold check compileStages
  simp only [hscan]

theorem check_of_refused {f : Parser.Failure} (htokens : tokenize (withoutMark source) = .ok tokens)
    (h : parse tokens = .error f) : check source = [Diagnostic.ofFault (Fault.ofParser f)] := by
  rw [check, compileStages_of_tokens htokens, h]
  rfl

theorem translate_ok (style : Python.Style) (p : Program) :
    translate style (.ok p) = (Python.generate style p).mapError Python.Failure.fault := rfl

/-- What the generator complains of is the one diagnostic. -/
theorem check_generator {f : Python.Failure} (htokens : tokenize (withoutMark source) = .ok tokens)
    (hp : parse tokens = .ok p) (h : Python.generate Python.Style.default p = .error f) :
    check source = [Diagnostic.ofFault f.fault] := by
  rw [check, compileStages_of_tokens htokens, hp, translate_ok, h]
  rfl

/-- A source that is compiled has no diagnostics. -/
theorem check_generated {text : Text} (htokens : tokenize (withoutMark source) = .ok tokens)
    (hp : parse tokens = .ok p) (h : Python.generate Python.Style.default p = .ok text) : check source = [] := by
  rw [check, compileStages_of_tokens htokens, hp, translate_ok, h]
  rfl

theorem mem_of_mem_endBehind (h : tokenize source = .ok tokens) {t : Token}
    (ht : t ∈ Parser.endBehind tokens :: tokens) : t ∈ tokens := by
  obtain ⟨init, u, rfl, hkind, -⟩ := tokenize_end h
  have hend : Parser.endBehind (init ++ [u]) = u := by
    rw [Parser.endBehind, List.getLast?_concat]
    exact if_pos hkind
  rw [hend] at ht
  rcases List.mem_cons.mp ht with rfl | ht
  · exact List.mem_append_right _ List.mem_cons_self
  · exact ht

theorem startsIn_of_endOfInput (h : tokenize source = .ok tokens) {t : Token} (ht : t ∈ tokens)
    (hkind : t.kind = .endOfInput) : t.span.StartsIn (Place.behind source) := by
  obtain ⟨init, u, rfl, -, hinit, hstarts⟩ := tokenize_end h
  rcases List.mem_append.mp ht with ht | ht
  · exact absurd hkind (hinit t ht)
  · exact List.mem_singleton.mp ht ▸ hstarts

theorem width_withoutMark_le (source : Text) : (withoutMark source).width ≤ source.width := by
  unfold withoutMark Text.dropStart
  split
  · have hsplit := congrArg Text.width (List.take_append_drop (Text.byteOrderMark.length) source)
    rw [Text.width_append] at hsplit
    omega
  · exact Nat.le_refl _

end Stages

/-! ### Returns that cannot be written -/

namespace Python

theorem stands_of_returnsAt {p : Program} {body : List Stmt} {span : Span} (h : ReturnsAt body span)
    {frames : List Anadil.Frame} (hbody : ∀ s ∈ body, p.Stands frames s) :
    ∃ frames e, p.Stands frames (.ret span (some e)) := by
  induction h generalizing frames with
  | here hs => exact ⟨frames, _, hbody _ hs⟩
  | branch hs _ ih => exact ih fun s hmem => .branch (hbody _ hs) hmem
  | otherwise hs _ ih => exact ih fun s hmem => .otherwise (hbody _ hs) hmem
  | loop hs _ ih => exact ih fun s hmem => .loop (hbody _ hs) hmem

/-- A program that is read from tokens and not written in Python fails at one of its returns. -/
theorem generate_eq_error {tokens : List Token} {p : Program} (hp : parse tokens = .ok p) {f : Failure}
    (h : generate Style.default p = .error f) :
    ∃ name frames span e, f = .constructorReturns name span.line span.column ∧
      p.Stands frames (.ret span (some e)) := by
  have hlegal := (Parser.parse_sound (fun _ _ => True) (fun _ _ => trivial) hp).2
  have hlines : Answers (offences Style.default p) (lines Style.default p) :=
    stmts_answers (fun s _ => answersStmt _ Style.default s) hlegal [] _ 0
  have hanswer : Answers (offences Style.default p) (generate Style.default p) := hlines.map
  rw [h] at hanswer
  cases hfound : offences Style.default p with
  | nil =>
    rw [hfound] at hanswer
    obtain ⟨text, htext⟩ := hanswer
    cases htext
  | cons offence more =>
    rw [hfound] at hanswer
    obtain ⟨name, span⟩ := offence
    cases hanswer
    have hmem : (name, span) ∈ offences Style.default p := hfound ▸ List.mem_cons_self
    obtain ⟨around, f, hf, -, -, hreturns⟩ := mem_offences.mp hmem
    cases hf with
    | method hclass hmethod =>
      obtain ⟨frames, e, hret⟩ := stands_of_returnsAt hreturns fun s hs => .method hclass hmethod hs
      exact ⟨name, frames, span, e, rfl, hret⟩

end Python

/-! ### Bytes and places -/

/-- The place of a diagnostic is that of the byte at which the source is wrong. -/
theorem BlamedAt.placed {source : Text} {o : Nat} (h : BlamedAt source o) :
    ∃ (d : Diagnostic) (p : Place), check source = [d] ∧ d.line = p.line ∧ d.column = p.column ∧
      p.Stops (withoutMark source) ∧ o = markWidth source + p.offset := by
  cases h with
  | @lexer r hflaw =>
    obtain ⟨front, rest, hsource, hplace, hspace, -⟩ := tokenize_error_stops hflaw
    exact ⟨_, r.place, check_lexer hflaw, rfl, rfl, ⟨front, rest, hsource, hplace, hspace⟩, rfl⟩
  | parser htokens hrefused ht hkind hat =>
    obtain ⟨p, hp, hstops⟩ := tokenize_token_stops htokens _ ht
    refine ⟨_, p, check_of_refused htokens hrefused, hat.line.trans hp.line, hat.column.trans hp.column, hstops, ?_⟩
    rw [hp.start, Int.toNat_natCast]
  | finish htokens hrefused ht hkind hat =>
    have hp := startsIn_of_endOfInput htokens ht hkind
    refine ⟨_, Place.behind (withoutMark source), check_of_refused htokens hrefused, hat.line.trans hp.line,
      hat.column.trans hp.column, ⟨_, [], (List.append_nil _).symm, rfl, by simp⟩, ?_⟩
    have hle := width_withoutMark_le source
    simp only [markWidth, Place.behind]
    omega
  | generator htokens hp hrefused hret =>
    obtain ⟨t, ht, hstarts⟩ := Parser.parse_return hp (tokenize_inOrder htokens) hret
    obtain ⟨p, hplace, hstops⟩ := tokenize_token_stops htokens t ht
    refine ⟨_, p, check_generator htokens hp hrefused, hstarts.line.trans hplace.line,
      hstarts.column.trans hplace.column, hstops, ?_⟩
    rw [hstarts.start, hplace.start, Int.toNat_natCast]

theorem exists_blamedAt {source : Text} (h : check source ≠ []) : ∃ o, BlamedAt source o := by
  cases htokens : tokenize (withoutMark source) with
  | error r => exact ⟨_, .lexer htokens⟩
  | ok tokens =>
    cases hp : parse tokens with
    | error f =>
      cases f with
      | spent => exact absurd hp (Parser.parse_ne_spent tokens)
      | refused r =>
        obtain ⟨t, ht, hat⟩ := Parser.parse_refused hp
        have hmem := mem_of_mem_endBehind htokens ht
        by_cases hkind : t.kind = .endOfInput
        · exact ⟨_, .finish htokens hp hmem hkind hat⟩
        · exact ⟨_, .parser htokens hp hmem hkind hat⟩
    | ok p =>
      cases hgenerate : Python.generate Python.Style.default p with
      | ok text => exact absurd (check_generated htokens hp hgenerate) h
      | error f =>
        obtain ⟨name, frames, span, e, rfl, hret⟩ := Python.generate_eq_error hp hgenerate
        exact ⟨_, .generator htokens hp hgenerate hret⟩

/-- In one text a line and a column are one place. -/
theorem Place.behind_inj {t u t' u' : Text} (h : t ++ u = t' ++ u')
    (hline : (Place.behind t).line = (Place.behind t').line)
    (hcolumn : (Place.behind t).column = (Place.behind t').column) : t = t' := by
  -- the longer part goes on without a line feed, so the column tells how far
  have hlonger : ∀ {t v : Text}, (Place.behind t).line = (Place.behind (t ++ v)).line →
      (Place.behind t).column = (Place.behind (t ++ v)).column → v = [] := by
    intro t v hline hcolumn
    have hcount : v.count (.char '\n') = 0 := by
      simp only [Place.behind, List.count_append] at hline
      omega
    have hlast := Text.lastLine_append_of_notMem t (List.count_eq_zero.mp hcount)
    have hlength := congrArg List.length hlast
    simp only [Text.lastLine, List.length_reverse, List.length_append] at hlength
    simp only [Place.behind, hlength] at hcolumn
    exact List.eq_nil_of_length_eq_zero (by omega)
  rcases List.append_eq_append_iff.mp h with ⟨v, rfl, -⟩ | ⟨v, rfl, -⟩
  · rw [hlonger hline hcolumn, List.append_nil]
  · rw [hlonger hline.symm hcolumn.symm, List.append_nil]

theorem BlamedAt.unique {source : Text} {o o' : Nat} (h : BlamedAt source o) (h' : BlamedAt source o') : o = o' := by
  obtain ⟨d, p, hd, hline, hcolumn, ⟨t, u, htext, rfl, -⟩, rfl⟩ := h.placed
  obtain ⟨d', p', hd', hline', hcolumn', ⟨t', u', htext', rfl, -⟩, rfl⟩ := h'.placed
  rw [hd] at hd'
  cases hd'
  have ht : t = t' := Place.behind_inj (htext.symm.trans htext')
    (Int.natCast_inj.mp (hline.symm.trans hline')) (Int.natCast_inj.mp (hcolumn.symm.trans hcolumn'))
  rw [ht]

end Anadil
