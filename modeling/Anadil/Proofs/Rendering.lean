import Anadil.Cli.Compiler
import Anadil.Pipeline.Worker
import Anadil.Proofs.Parity
import Anadil.Proofs.Token.Positions
import Anadil.Proofs.Tree.Numbers

/-! # Trees that can be shown

A tree that is not nested too deep can be shown unless a number of its source is padded with zeros. The same number
then stops every document of the tree, the compiler's front end and the comparison of trees. -/

namespace Anadil

/-! ### Documents -/

section Documents
variable {source : Text} {p : Program} {tokens : List Token}

/-- A second byte order mark would start no piece, so there is none. -/
theorem parseSource_withoutMark (hp : parseSource source = .ok p) : parseSource (withoutMark source) = .ok p := by
  have h := hp
  simp only [parseSource, bind_eq_ok, mapError_eq_ok] at h
  obtain ⟨tokens, htokens, -⟩ := h
  rw [parseSource, withoutMark_eq htokens]
  exact hp

theorem mem_stmtsNumbers (htokens : tokenize (withoutMark source) = .ok tokens) (hp : parse tokens = .ok p)
    (n : Text) : n ∈ stmtsNumbers p.body ↔ n ∈ Token.numbers tokens := by
  obtain ⟨init, last, rfl, hlast, hinit⟩ := (tokenize_eq_ok_iff.mp htokens).last
  have hmem := (Parser.program_derives hp).mem_numbers n
  rw [Parser.input_append hinit hlast] at hmem
  refine hmem.trans ?_
  rw [mem_numbers_append, mem_numbers_cons]
  simp [hlast, Token.numbers]

theorem isNumeral_of_mem_numbers (htokens : tokenize source = .ok tokens) {n : Text}
    (h : n ∈ Token.numbers tokens) : n.IsNumeral := by
  obtain ⟨t, ht, rfl⟩ := List.mem_map.mp h
  obtain ⟨ht, hkind⟩ := List.mem_filter.mp ht
  exact (tokenize_spelled htokens t ht).numeral (of_decide_eq_true hkind)

/-- No document of a program is nested too deep to be laid out. -/
def Document.Fits (p : Program) : Prop :=
  ∀ positions v, program positions p = .ok v → v.nesting ≤ Json.deepest

/-- What becomes of a document is settled by the first number of the tree that it cannot write. -/
theorem Document.render_eq (hp : parseSource source = .ok p) (style : Style) :
    (Fits p → ∃ d, render style p = .ok d) ∧ (stmtsNumbers p.body).find? Json.isUnfit = none ∨
      ∃ n, (stmtsNumbers p.body).find? Json.isUnfit = some n ∧ render style p = .error (.badNumber n) := by
  obtain ⟨v, hv, hbears⟩ := program_bears style.positions (Python.legal_of_parseSource hp)
  rw [← hbears]
  cases hbad : v.firstBadNumber with
  | none => exact .inl ⟨fun hfits => ⟨_, render_eq_ok.mpr ⟨v, hv, hbad, .inr (hfits _ v hv), rfl⟩⟩, rfl⟩
  | some n => exact .inr ⟨n, rfl, by rw [render, hv]; simp only [bind, Except.bind, hbad]⟩

/-- A document that is nested too deep is not indented. -/
theorem Document.render_deep {style : Style} {v : Json} (hv : program style.positions p = .ok v)
    (hdeep : Json.deepest < v.nesting) (hunit : style.unit ≠ []) : ∃ f, render style p = .error f := by
  cases hrender : render style p with
  | error f => exact ⟨f, rfl⟩
  | ok d =>
    obtain ⟨w, hw, -, hlimit, -⟩ := render_eq_ok.mp hrender
    cases hv.symm.trans hw
    exact absurd (hlimit.resolve_left hunit) (Nat.not_le_of_lt hdeep)

end Documents

/-! ### The front end -/

namespace Cli.Compiler

/-- A command line that asks the front end for the tree of a file, with positions or without. -/
def AsksForTree (args : List Text) (positions : Bool) (path : Text) : Prop :=
  ∃ flags shows, dispatch program.root args = .run execute flags shows ∧ flags.switch "version" = false ∧
    flags.switch "dump-ast" = true ∧ flags.switch "no-positions" = !positions ∧ flags.args = [path]

example : AsksForTree ["--no-positions", "-", "--dump-ast"] false "-" :=
  ⟨⟨_, _, _⟩, _, by with_unfolding_all rfl, by decide +kernel⟩

section
variable {args : List Text} {positions : Bool} {path source : Text} {p : Anadil.Program} {s s' : Session}

/-- The status and the session behind a run that shows a tree or reports why it cannot. -/
theorem run_eq (hargs : AsksForTree args positions path) (hread : readSource path s = .ok source s')
    (hp : parseSource source = .ok p) :
    program.run args s =
      match Document.render ⟨[], positions⟩ p with
      | .ok d => (0, { s' with stdout := s'.stdout ++ [.text d] })
      | .error f => (2, { s' with stderr := s'.stderr ++ [.text ("turkc: " ++ f.fault.inline ++ "\n")] }) := by
  obtain ⟨flags, shows, hdispatch, hversion, hdump, hpositions, hone⟩ := hargs
  have hexecute : execute flags s = showTree positions path source s' := by
    simp only [execute, hversion, hone, hdump, hpositions, Bool.not_not, ↓reduceIte, Bool.false_eq_true, bind,
      EStateM.bind, hread]
  have hbefore : (program.before flags *> execute flags) s = execute flags s := rfl
  simp only [Program.run, hdispatch, hbefore, hexecute, showTree, hp]
  cases Document.render ⟨[], positions⟩ p <;> rfl

end

end Cli.Compiler

/-! ### The comparison of trees -/

namespace Pipeline.Worker

/-- A worker compares the tree of a sample with the one that the compiler dumps. -/
def compareTrees (w : Worker) (compiler : Tool) (s : Store.Sample) (own : Text) : Work Unit := do
  let report ← runTool w.traced compiler (Tool.dumpArguments (Path.join [w.dataDir, s.path])) []
  match ← outcome ((report.asDocument compiler.command).compared own) with
  | some m => throw (.treeDiffers s.id m)
  | none => return ()

theorem parity_eq {w : Worker} {compiler : Tool} {s : Store.Sample} {p : Program}
    (hcompiler : w.compiler = some compiler) (hpath : s.path ≠ []) (hp : parseSource s.source = .ok p)
    (state : State) :
    w.parity s state =
      match Document.render ⟨[], true⟩ p with
      | .ok own => w.compareTrees compiler s own state
      | .error f => .error f.fault state := by
  have hempty : s.path.isEmpty = false := by simpa using hpath
  simp only [parity, hcompiler, hempty, Bool.false_eq_true, ↓reduceIte, bind, EStateM.bind, renderSource,
    parseSource_withoutMark hp, Except.bind]
  cases Document.render ⟨[], true⟩ p <;> rfl

end Pipeline.Worker

/-! ### Padded numbers -/

section Padded
open Cli Cli.Compiler Pipeline

/-- The tree of a source is shown wherever it is asked for: in documents of all styles, by the front end, which
ends with status 0, and by a worker, which goes on to the compiler. -/
structure Shown (source : Text) (p : Program) : Prop where
  rendered : ∀ style, ∃ d, Document.render style p = .ok d
  dumped : ∀ {args positions path s s'}, AsksForTree args positions path → readSource path s = .ok source s' →
    ∃ d, Document.render ⟨[], positions⟩ p = .ok d ∧
      Compiler.program.run args s = (0, { s' with stdout := s'.stdout ++ [.text d] })
  compared : ∀ {w : Worker} {compiler sample state}, w.compiler = some compiler → sample.path ≠ [] →
    sample.source = source → ∃ own, Document.render ⟨[], true⟩ p = .ok own ∧
      w.parity sample state = w.compareTrees compiler sample own state

/-- The tree of a source is shown nowhere, because of a number: no document can be made, the front end prints
nothing but the fault and ends with status 2, and a worker fails with the same fault before it runs the
compiler. -/
structure Refused (source : Text) (p : Program) (n : Text) : Prop where
  rendered : ∀ style, Document.render style p = .error (.badNumber n)
  dumped : ∀ {args positions path s s'}, AsksForTree args positions path → readSource path s = .ok source s' →
    Compiler.program.run args s =
      (2, { s' with stderr := s'.stderr ++
        [.text ("turkc: " ++ (Document.Failure.badNumber n).fault.inline ++ "\n")] })
  compared : ∀ {w : Worker} {compiler sample state}, w.compiler = some compiler → sample.path ≠ [] →
    sample.source = source → w.parity sample state = .error (Document.Failure.badNumber n).fault state

variable {source : Text} {p : Program}

theorem shown_of_render (hp : parseSource source = .ok p) (h : ∀ style, ∃ d, Document.render style p = .ok d) :
    Shown source p where
  rendered := h
  dumped {args positions path s s'} hargs hread := by
    obtain ⟨d, hd⟩ := h ⟨[], positions⟩
    have hrun := run_eq hargs hread hp
    rw [hd] at hrun
    exact ⟨d, hd, hrun⟩
  compared {w compiler sample state} hcompiler hpath hsource := by
    subst hsource
    obtain ⟨own, hown⟩ := h ⟨[], true⟩
    have hparity := Worker.parity_eq hcompiler hpath hp state
    rw [hown] at hparity
    exact ⟨own, hown, hparity⟩

theorem refused_of_render (hp : parseSource source = .ok p) {n : Text}
    (h : ∀ style, Document.render style p = .error (.badNumber n)) : Refused source p n where
  rendered := h
  dumped {args positions path s s'} hargs hread := by
    have hrun := run_eq hargs hread hp
    rwa [h ⟨[], positions⟩] at hrun
  compared {w compiler sample state} hcompiler hpath hsource := by
    subst hsource
    have hparity := Worker.parity_eq hcompiler hpath hp state
    rwa [h ⟨[], true⟩] at hparity

/-- The tree of a source is shown if no number of the source is padded with zeros, and refused because of a
padded number if there is one. This is so for trees whose documents are not nested too deep; those that are cannot be
shown in any style with an indent. -/
theorem shown_or_refused (hp : parseSource source = .ok p) :
    ∃ tokens, tokenize (withoutMark source) = .ok tokens ∧
      (Document.Fits p → (∀ n ∈ Token.numbers tokens, ¬ n.IsPadded) ∧ Shown source p ∨
        ∃ n ∈ Token.numbers tokens, n.IsPadded ∧ Refused source p n) ∧
      ∀ style v, Document.program style.positions p = .ok v → Json.deepest < v.nesting → style.unit ≠ [] →
        ∃ f, Document.render style p = .error f := by
  have hparse := hp
  simp only [parseSource, bind_eq_ok, mapError_eq_ok] at hparse
  obtain ⟨tokens, htokens, hparse⟩ := hparse
  have hmem := mem_stmtsNumbers htokens hparse
  refine ⟨tokens, htokens, fun hfits => ?_, fun style v => Document.render_deep⟩
  -- which number is met first is the same in all styles
  cases hfind : (stmtsNumbers p.body).find? Json.isUnfit with
  | none =>
    refine .inl ⟨fun n hn hpadded => ?_, shown_of_render hp fun style => ?_⟩
    · have hunfit := List.find?_eq_none.mp hfind n ((hmem n).mpr hn)
      exact hunfit ((Json.isUnfit_iff (isNumeral_of_mem_numbers htokens hn)).mpr hpadded)
    · rcases Document.render_eq hp style with ⟨hd, -⟩ | ⟨n, hn, -⟩
      · exact hd hfits
      · rw [hfind] at hn
        cases hn
  | some n =>
    have hn := (hmem n).mp (List.mem_of_find?_eq_some hfind)
    have hpadded := (Json.isUnfit_iff (isNumeral_of_mem_numbers htokens hn)).mp (List.find?_some hfind)
    refine .inr ⟨n, hn, hpadded, refused_of_render hp fun style => ?_⟩
    rcases Document.render_eq hp style with ⟨-, hnone⟩ | ⟨n', hn', hd⟩
    · rw [hfind] at hnone
      cases hnone
    · rw [hfind] at hn'
      cases hn'
      exact hd

/-- The numbers of a source whose documents are not nested too deep. -/
def fittingNumbers? (source : Text) : Option (List Text) := do
  let tokens ← (tokenize (withoutMark source)).toOption
  let p ← (parseSource source).toOption
  let v ← (Document.program true p).toOption
  let w ← (Document.program false p).toOption
  if v.nesting ≤ Json.deepest ∧ w.nesting ≤ Json.deepest then return Token.numbers tokens else none

/-- Zeros in front, behind and alone. -/
def plainZeros : Text := "x = 0 + 0.050 * 100"

/-- A padded number in the condition of a loop and one in its body. -/
def paddedZeros : Text := "döngü 00.5 < x \x7b x = f(1, 007) \x7d"

theorem shown_or_refused_zeros :
    (∃ p, parseSource plainZeros = .ok p ∧ Shown plainZeros p) ∧
      ∃ p, parseSource paddedZeros = .ok p ∧
        (Refused paddedZeros p "00.5" ∨ Refused paddedZeros p "007") := by
  have hread : ∀ {source : Text} {numbers : List Text}, fittingNumbers? source = some numbers →
      ∃ p, parseSource source = .ok p ∧ ((∀ n ∈ numbers, ¬ n.IsPadded) ∧ Shown source p ∨
        ∃ n ∈ numbers, n.IsPadded ∧ Refused source p n) := by
    intro source numbers h
    simp only [fittingNumbers?, Option.bind_eq_bind, Option.bind_eq_some_iff, toOption_eq_some, Option.pure_def,
      Option.ite_none_right_eq_some, Option.some.injEq] at h
    obtain ⟨tokens, htokens, p, hp, v, hv, w, hw, ⟨hdeep, hdeep'⟩, rfl⟩ := h
    have hfits : Document.Fits p := by
      intro positions u hu
      cases positions with
      | true => exact Except.ok.inj (hv.symm.trans hu) ▸ hdeep
      | false => exact Except.ok.inj (hw.symm.trans hu) ▸ hdeep'
    obtain ⟨tokens', htokens', hcases, -⟩ := shown_or_refused hp
    cases htokens.symm.trans htokens'
    exact ⟨p, hp, hcases hfits⟩
  constructor
  · have hzeros : ∀ n ∈ (["0", "0.050", "100"] : List Text), ¬ n.IsPadded := by decide
    obtain ⟨p, hp, ⟨-, hshown⟩ | ⟨n, hn, hpadded, -⟩⟩ := @hread plainZeros ["0", "0.050", "100"] (by decide +kernel)
    · exact ⟨p, hp, hshown⟩
    · exact absurd hpadded (hzeros n hn)
  · have hzeros : ∀ n ∈ (["00.5", "1", "007"] : List Text), n.IsPadded → n = ("00.5" : Text) ∨ n = ("007" : Text) := by
      decide
    obtain ⟨p, hp, ⟨hnone, -⟩ | ⟨n, hn, hpadded, hrefused⟩⟩ := @hread paddedZeros ["00.5", "1", "007"] (by decide +kernel)
    · exact absurd (by decide) (hnone "007" (by decide))
    · refine ⟨p, hp, ?_⟩
      rcases hzeros n hn hpadded with rfl | rfl
      · exact .inl hrefused
      · exact .inr hrefused

/-- A program of one padded number can be written in Python, and its tree cannot be shown. -/
theorem render_paddedSeven :
    ∃ p, parseSource "x = 007\n" = .ok p ∧ Python.generate .default p = .ok "x = 7\n" ∧
      ∀ style, Document.render style p = .error (.badNumber "007") := by
  have hrun : (parseSource "x = 007\n").toOption.any (fun p =>
      (Python.generate .default p).toOption == some ("x = 7\n" : Text) &&
        (stmtsNumbers p.body).find? Json.isUnfit == some "007") = true := by decide +kernel
  simp only [Option.any_eq_true, Bool.and_eq_true, beq_iff_eq, toOption_eq_some] at hrun
  obtain ⟨p, hp, hpython, hfind⟩ := hrun
  refine ⟨p, hp, hpython, fun style => ?_⟩
  rcases Document.render_eq hp style with ⟨-, hnone⟩ | ⟨n, hn, hd⟩
  · rw [hfind] at hnone
    cases hnone
  · rw [hfind] at hn
    cases hn
    exact hd

end Padded

end Anadil
