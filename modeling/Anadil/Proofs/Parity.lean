import Anadil.Tool.Run
import Anadil.Proofs.Json.Unique
import Anadil.Proofs.Python.Blocks
import Anadil.Proofs.Translation
import Anadil.Proofs.Tree.Told

/-! # What documents say of programs

The documents of two programs agree if and only if the programs are the same, spans aside and with stray
bytes seen as U+FFFD. Such programs have the same Python text, so documents that agree settle it. -/

namespace Anadil

variable {p : Program} {d source : Text} {v : Json}

/-! ### Documents of programs -/

theorem Text.IsDigits.eq_cons {t : Text} (h : t.IsDigits) : ∃ g u, t = g :: u := by
  obtain ⟨ds, hne, rfl, -⟩ := h
  cases ds with
  | nil => exact absurd rfl hne
  | cons d ds => exact ⟨_, _, rfl⟩

/-- The names and numbers of a source can be told apart in documents. -/
theorem clear_spelling : Clear Python.spelling where
  name h := by
    obtain ⟨d, ds, rfl, -, -⟩ := h.1 rfl
    exact Text.isClean_iff.mpr ⟨d :: ds, rfl⟩
  number h := by
    rcases h.2 rfl with h | ⟨whole, fraction, hwhole, -, rfl⟩
    · obtain ⟨g, u, rfl⟩ := h.eq_cons
      rfl
    · obtain ⟨g, u, rfl⟩ := hwhole.eq_cons
      rfl

/-- A document is made if it can write every number and is not too deep to be indented. -/
theorem Document.render_eq_ok {style : Style} :
    render style p = .ok d ↔ ∃ v, program style.positions p = .ok v ∧ v.firstBadNumber = none ∧
      (style.unit = [] ∨ v.nesting ≤ Json.deepest) ∧ d = v.document (Json.Layout.ofUnit style.unit) := by
  rw [render, bind_eq_ok]
  refine exists_congr fun v => and_congr_right fun _ => ?_
  cases v.firstBadNumber with
  | none =>
    have hdeep : (!style.unit.isEmpty && decide (Json.deepest < v.nesting)) = true ↔
        ¬ (style.unit = [] ∨ v.nesting ≤ Json.deepest) := by
      simp
    by_cases h : style.unit = [] ∨ v.nesting ≤ Json.deepest
    · simp only [hdeep, h, not_true_eq_false, if_false, pure_eq_ok, true_and]
      exact eq_comm
    · simp [hdeep, h]
  | some digits =>
    constructor
    · rintro ⟨⟩
    · rintro ⟨⟨⟩, -⟩

theorem isBlank_ofUnit {unit : Text} (h : ∀ g ∈ unit, Json.isBlank g = true) : (Json.Layout.ofUnit unit).IsBlank := by
  unfold Json.Layout.ofUnit
  split
  · trivial
  · exact h

/-- Programs of sources are the same, spans and stray bytes aside, if and only if a comparison sees the same in
their documents. -/
theorem gist_eq_iff {source' : Text} {q : Program} (hp : parseSource source = .ok p)
    (hq : parseSource source' = .ok q) {positions positions' : Bool} {w : Json}
    (hv : Document.program positions p = .ok v) (hw : Document.program positions' q = .ok w) :
    v.gist = w.gist ↔ p.bare.cleaned = q.bare.cleaned := by
  rw [Document.gist_program hv, Document.gist_program hw]
  exact Program.sketch_eq_iff clear_spelling (Python.legal_of_parseSource hp) (Python.legal_of_parseSource hq)

/-! ### Comparisons -/

namespace Parity

theorem decode_document {l : Json.Layout} (hl : l.IsBlank) (hgood : v.firstBadNumber = none)
    (hdepth : v.nesting ≤ Json.deepest) : decode (v.document l) = .ok v.plain.normal := by
  rw [decode, Json.readFirst_document hl hgood hdepth]

theorem eq_of_decode {l : Json.Layout} (hl : l.IsBlank) {a : Json} (hgood : v.firstBadNumber = none)
    (h : decode (v.document l) = .ok a) : a = v.plain.normal := by
  unfold decode at h
  split at h
  · rename_i w rest hread
    cases h
    rw [Json.plain_of_readFirst hl hgood hread]
  · cases h

theorem compare_eq_ok {e : Text} {m : Option Json.Mismatch} :
    Parity.compare d e = .ok m ↔ ∃ a b, decode d = .ok a ∧ decode e = .ok b ∧ Json.difference a b = m := by
  simp only [Parity.compare, bind_eq_ok, mapError_eq_ok, pure_eq_ok]
  constructor
  · rintro ⟨a, ha, b, hb, h⟩
    exact ⟨a, b, ha, hb, h⟩
  · rintro ⟨a, b, ha, hb, h⟩
    exact ⟨a, ha, b, hb, h⟩

/-- Documents of programs, laid out with any white space and with positions or without, can be compared,
and they agree if and only if the programs are the same, spans aside and with stray bytes seen as U+FFFD. -/
theorem compare_render {source source' d e : Text} {p q : Program} {s t : Document.Style} {v w : Json}
    (hp : parseSource source = .ok p) (hq : parseSource source' = .ok q)
    (hs : ∀ g ∈ s.unit, Json.isBlank g = true) (ht : ∀ g ∈ t.unit, Json.isBlank g = true)
    (hd : Document.render s p = .ok d) (he : Document.render t q = .ok e)
    (hv : Document.program s.positions p = .ok v) (hw : Document.program t.positions q = .ok w)
    (hdeep : v.nesting ≤ Json.deepest) (hdeep' : w.nesting ≤ Json.deepest) :
    ∃ m, Parity.compare d e = .ok m ∧ (m = none ↔ p.bare.cleaned = q.bare.cleaned) := by
  obtain ⟨v', hv', hgood, -, rfl⟩ := Document.render_eq_ok.mp hd
  obtain ⟨w', hw', hgood', -, rfl⟩ := Document.render_eq_ok.mp he
  cases hv.symm.trans hv'
  cases hw.symm.trans hw'
  refine ⟨_, compare_eq_ok.mpr ⟨_, _, decode_document (isBlank_ofUnit hs) hgood hdeep,
    decode_document (isBlank_ofUnit ht) hgood' hdeep', rfl⟩, ?_⟩
  rw [Json.difference_eq_none (Json.orderly_normal_plain v) (Json.orderly_normal_plain w)]
  exact gist_eq_iff hp hq hv hw

/-- How deep the document of a source is nested, and the sketch of its tree on one line. -/
def view? (style : Document.Style) (source : Text) : Option (Nat × Text) := do
  let p ← (parseSource source).toOption
  let _ ← (Document.render style p).toOption
  let v ← (Document.program style.positions p).toOption
  return (v.nesting, p.sketch.written .compact 0)

theorem view?_eq_some {style : Document.Style} {n : Nat} {line : Text}
    (h : view? style source = some (n, line)) :
    ∃ p d v, parseSource source = .ok p ∧ Document.render style p = .ok d ∧
      Document.program style.positions p = .ok v ∧ v.nesting = n ∧ p.sketch.written .compact 0 = line := by
  simp only [view?, Option.bind_eq_bind, Option.bind_eq_some_iff, toOption_eq_some, Option.pure_def,
    Option.some.injEq, Prod.mk.injEq] at h
  obtain ⟨p, hp, d, hd, v, hv, hn, hline⟩ := h
  exact ⟨p, d, v, hp, hd, hv, hn, hline⟩

/-- Two sources have documents, one with tabs and positions and one with other white space and without, and a
comparison finds that they disagree. -/
def Disagree (a b : Text) : Prop :=
  ∃ p q d e m, parseSource a = .ok p ∧ parseSource b = .ok q ∧ Document.render ⟨"\t", true⟩ p = .ok d ∧
    Document.render ⟨" \r\n", false⟩ q = .ok e ∧ Parity.compare d e = .ok (some m)

/-- An else that is absent or empty, a return of nothing or of null, two spellings of an operator and two of a
number are told apart. -/
theorem compare_render_nearMisses :
    Disagree "eğer x \x7b\x7d" "eğer x \x7b\x7d değilse \x7b\x7d" ∧
      Disagree "fonksiyon f() \x7b dön \x7d" "fonksiyon f() \x7b dön boş \x7d" ∧
      Disagree "x = a ve b" "x = a && b" ∧ Disagree "x = 1.0" "x = 1.00" := by
  have hdisagree : ∀ {a b : Text}, ((view? ⟨"\t", true⟩ a).any fun x => (view? ⟨" \r\n", false⟩ b).any fun y =>
      x.1 ≤ Json.deepest && y.1 ≤ Json.deepest && x.2 != y.2) = true → Disagree a b := by
    intro a b h
    obtain ⟨⟨n, line⟩, ha, h⟩ := (Option.any_eq_true _ _).mp h
    obtain ⟨⟨n', line'⟩, hb, h⟩ := (Option.any_eq_true _ _).mp h
    simp only [Bool.and_eq_true, decide_eq_true_eq, bne_iff_ne] at h
    obtain ⟨⟨hdeep, hdeep'⟩, hne⟩ := h
    obtain ⟨p, d, v, hp, hd, hv, rfl, rfl⟩ := view?_eq_some ha
    obtain ⟨q, e, w, hq, he, hw, rfl, rfl⟩ := view?_eq_some hb
    obtain ⟨m, hm, hiff⟩ := compare_render hp hq (by decide) (by decide) hd he hv hw hdeep hdeep'
    cases m with
    | some m => exact ⟨p, q, d, e, m, hp, hq, hd, he, hm⟩
    | none => exact absurd (by rw [← p.sketch_cleaned, hiff.mp rfl, q.sketch_cleaned]) hne
  refine ⟨hdisagree ?_, hdisagree ?_, hdisagree ?_, hdisagree ?_⟩ <;> decide +kernel

end Parity

/-! ### Translations -/

/-- Two outcomes of a translation that differ at most in the place that a failure names. -/
def Python.Alike (x y : Except Python.Failure Text) : Prop :=
  (∃ text, x = .ok text ∧ y = .ok text) ∨
    ∃ f g, x = .error f ∧ y = .error g ∧ f.fault.unplaced = g.fault.unplaced

/-- Python code shows a stray byte of a string literal as U+FFFD. -/
theorem Python.literal_cleaned (v : Literal) : literal v.cleaned = literal v := by
  cases v with
  | string content =>
    simp only [Literal.cleaned, literal, string, Text.clean, List.flatMap_map]
    rfl
  | _ => rfl

theorem Python.faithful_cleaned : Faithful .placed .cleaned :=
  ⟨fun _ => rfl, fun _ => rfl, literal_cleaned, fun x _ _ => by cases x <;> rfl⟩

theorem Python.generate_cleaned (style : Python.Style) (p : Program) :
    generate style p.bare.cleaned = (generate style p).mapError Failure.unplaced := by
  rw [faithful_cleaned.generate_retold style rfl, ← generate_bare, funext Failure.viewed_placed]
  cases generate style p.bare <;> rfl

theorem Python.alike_of_same {q : Program} (h : p.bare.cleaned = q.bare.cleaned) (style : Python.Style) :
    Alike (generate style p) (generate style q) := by
  have hfault : ∀ f : Failure, f.fault.unplaced = f.unplaced.fault.unplaced := by
    intro f
    cases f <;> rfl
  have hsame : (generate style p).mapError Failure.unplaced = (generate style q).mapError Failure.unplaced := by
    rw [← generate_cleaned, h, generate_cleaned]
  cases hp : generate style p with
  | ok text =>
    cases hq : generate style q with
    | ok text' =>
      rw [hp, hq] at hsame
      cases hsame
      exact .inl ⟨text, rfl, rfl⟩
    | error g =>
      rw [hp, hq] at hsame
      cases hsame
  | error f =>
    cases hq : generate style q with
    | ok text' =>
      rw [hp, hq] at hsame
      cases hsame
    | error g =>
      rw [hp, hq] at hsame
      refine .inr ⟨f, g, rfl, rfl, ?_⟩
      rw [hfault f, hfault g, Except.error.inj hsame]

/-- The document of a program settles its translation: programs whose documents without positions have the same
bytes, or whose documents a comparison finds to agree, have the same Python text, or fail with the same
message. -/
theorem generate_alike {source source' : Text} {p q : Program} (hp : parseSource source = .ok p)
    (hq : parseSource source' = .ok q) (style : Python.Style) :
    (∀ unit d e : Text, Document.render ⟨unit, false⟩ p = .ok d → Document.render ⟨unit, false⟩ q = .ok e →
        d.bytes = e.bytes → Python.Alike (Python.generate style p) (Python.generate style q)) ∧
      ∀ (s t : Document.Style) (d e : Text), (∀ g ∈ s.unit, Json.isBlank g = true) →
        (∀ g ∈ t.unit, Json.isBlank g = true) → Document.render s p = .ok d → Document.render t q = .ok e →
        Parity.compare d e = .ok none → Python.Alike (Python.generate style p) (Python.generate style q) := by
  constructor
  · intro unit d e hd he hbytes
    obtain ⟨v, hv, hgood, -, rfl⟩ := Document.render_eq_ok.mp hd
    obtain ⟨w, hw, hgood', -, rfl⟩ := Document.render_eq_ok.mp he
    have hplain := Json.plain_of_document hgood hgood' hbytes
    exact Python.alike_of_same ((gist_eq_iff hp hq hv hw).mp (by rw [Json.gist, hplain, Json.gist])) style
  · intro s t d e hs ht hd he hcompare
    obtain ⟨v, hv, hgood, -, rfl⟩ := Document.render_eq_ok.mp hd
    obtain ⟨w, hw, hgood', -, rfl⟩ := Document.render_eq_ok.mp he
    obtain ⟨a, b, ha, hb, hnone⟩ := Parity.compare_eq_ok.mp hcompare
    rw [Parity.eq_of_decode (isBlank_ofUnit hs) hgood ha, Parity.eq_of_decode (isBlank_ofUnit ht) hgood' hb,
      Json.difference_eq_none (Json.orderly_normal_plain v) (Json.orderly_normal_plain w)] at hnone
    exact Python.alike_of_same ((gist_eq_iff hp hq hv hw).mp hnone) style

/-- An initialiser that returns a text with a stray byte. -/
def strayReturn : Text :=
  Text.ofString "sınıf A \x7b fonksiyon kurucu() \x7b dön \"" ++ Glyph.byte 0xFF :: Text.ofString "\" \x7d \x7d"

/-- The same with the byte replaced, and on lines of its own. -/
def seenReturn : Text :=
  "sınıf A \x7b\n  fonksiyon kurucu() \x7b\n    dön \"\uFFFD\" // U+FFFD\n  \x7d\n\x7d"

theorem renderSource_eq_ok {style : Document.Style} :
    renderSource style source = .ok d ↔ ∃ p, parseSource source = .ok p ∧ Document.render style p = .ok d := by
  simp only [renderSource, bind_eq_ok, mapError_eq_ok]

theorem generate_alike_strayReturn :
    ∃ p q d e, parseSource strayReturn = .ok p ∧ parseSource seenReturn = .ok q ∧
      Document.render ⟨"  ", false⟩ p = .ok d ∧ Document.render ⟨"  ", false⟩ q = .ok e ∧ d.bytes = e.bytes ∧
      ∀ style, Python.Alike (Python.generate style p) (Python.generate style q) := by
  have hsame : (renderSource ⟨"  ", false⟩ strayReturn).toOption.map Text.bytes =
      (renderSource ⟨"  ", false⟩ seenReturn).toOption.map Text.bytes := by decide +kernel
  have hsome : (renderSource ⟨"  ", false⟩ strayReturn).toOption.isSome = true := by decide +kernel
  obtain ⟨d, hd⟩ := Option.isSome_iff_exists.mp hsome
  rw [hd, Option.map_some, eq_comm, Option.map_eq_some_iff] at hsame
  obtain ⟨e, he, hbytes⟩ := hsame
  obtain ⟨p, hp, hd⟩ := renderSource_eq_ok.mp (toOption_eq_some.mp hd)
  obtain ⟨q, hq, he⟩ := renderSource_eq_ok.mp (toOption_eq_some.mp he)
  refine ⟨p, q, d, e, hp, hq, hd, he, hbytes.symm, fun style => ?_⟩
  exact (generate_alike hp hq style).1 "  " d e hd he hbytes.symm

end Anadil
