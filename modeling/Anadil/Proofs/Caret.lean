import Anadil.Proofs.Diagnosis

/-! # Where the caret stands

A diagnostic is printed with a line of the source and a caret below it. The line is looked up by the line feeds of
the source, and the blanks in front of the caret come from the column that the lexer counted, to which a carriage
return and a line feed are one character. Both lead to the byte at which the source is wrong. -/

namespace Anadil.Diagnostic

/-- A line and a caret below it, `k` characters in, point at the byte `o`. -/
structure Points (shown : Text) (k : Nat) (bytes : List UInt8) (o : Nat) : Prop where
  inside : o ≤ bytes.length
  /-- The line that holds the byte, without its end and with a blank for each tab. -/
  line : shown = (Text.dropEnd ((Text.ofBytes (bytes.take o)).lastLine ++
    (Text.ofBytes (bytes.drop o)).firstLine) "\r").map fun g => if g = .char '\t' then .char ' ' else g
  /-- The characters between the start of the line and the byte. -/
  column : k = (Text.ofBytes (bytes.take o)).lastLine.length
  below : o < bytes.length → ∃ g, (Text.ofBytes (bytes.drop o)).head? = some g ∧ shown[k]? = some g
  /-- At the end of the source the caret is behind the line; a carriage return there is not shown. -/
  past : o = bytes.length → k = shown.length ∨ k = shown.length + 1 ∧ [.char '\r'] <:+ Text.ofBytes bytes

theorem sourceLine_eq (t u : Text) : sourceLine (t ++ u) ↑(1 + t.count (.char '\n')) =
    (Text.dropEnd (t.lastLine ++ u.firstLine) "\r").map fun g => if g = .char '\t' then .char ' ' else g := by
  have hindex : (((1 + t.count (.char '\n') : Nat) : Int) - 1).toNat = t.count (.char '\n') := by omega
  rw [sourceLine, if_neg (by omega), hindex, Text.splitAt_line]
  simp only [Text.is_iff]

/-- A place where a source stops is pointed at by its line and its column. -/
theorem points_behind {bytes : List UInt8} {t u : Text} (htext : Text.ofBytes bytes = t ++ u)
    (hu : ∀ g ∈ u.head?, Text.isSpace g.seen = false) :
    Points (sourceLine (Text.ofBytes bytes) ↑(1 + t.count (.char '\n'))) t.lastLine.length bytes t.width := by
  obtain ⟨hlength, hbefore, hbehind⟩ := Text.ofBytes_cut htext
  rw [htext, sourceLine_eq]
  refine ⟨by omega, by rw [hbefore, hbehind], by rw [hbefore], fun hlt => ?_, fun heq => ?_⟩
  · rw [hbehind]
    cases u with
    | nil => exact absurd hlength (Nat.ne_of_lt hlt)
    | cons g u =>
      -- white space is all that is shown as something else, or not at all
      have hspace := hu g rfl
      have hg : g ≠ .char '\t' := by
        rintro rfl
        exact absurd hspace (by decide)
      refine ⟨g, rfl, ?_⟩
      rw [Text.dropEnd_firstLine _ hspace]
      simp [hg]
  · obtain rfl : u = [] := by
      rw [← hbehind, heq, List.drop_length]
      rfl
    rw [List.length_map, htext, show Text.firstLine [] = [] from rfl, List.append_nil, List.append_nil]
    rcases Text.dropEnd_return t.lastLine with hline | hline
    · exact .inl (congrArg List.length hline).symm
    · refine .inr ⟨by simpa using congrArg List.length hline, .trans ?_ t.lastLine_suffix⟩
      exact ⟨_, hline.symm⟩

theorem severity_ofFault (f : Fault) : (ofFault f).severity = Log.Level.error := by
  unfold ofFault
  split <;> rfl

theorem severity_of_check {source : Text} {d : Diagnostic} (h : check source = [d]) :
    d.severity = Log.Level.error := by
  unfold check at h
  split at h
  · cases h
  · cases h
    exact severity_ofFault _

/-- A fault that stands `k` characters into its line is printed with `4 + k` blanks in front of the caret. -/
theorem printed_eq {d : Diagnostic} {k : Nat} (hseverity : d.severity = Log.Level.error)
    (hcolumn : d.column = ↑(1 + k)) (filename source : Text) :
    d.printed filename source =
      filename ++ ":" ++ Text.integer d.line ++ ":" ++ Text.integer d.column ++ ": error: " ++ d.message ++ "\n" ++
        (Text.blanks 4 ++ sourceLine source d.line ++ "\n") ++ (Text.blanks (4 + k) ++ "^\n") ++
        d.notes.flatMap fun n => ("    note: " ++ n ++ "\n" : Text) := by
  have hk : (d.column - 1).toNat = k := by omega
  have hblanks : Text.blanks (4 + k) = ("    " : Text) ++ Text.blanks k := by
    simp only [Text.blanks, ← List.replicate_append_replicate]
    rfl
  have hlevel : lowered (Log.Level.name d.severity) = ("error" : Text) := by
    rw [hseverity]
    decide
  simp only [printed, hlevel, hk, hblanks, List.append_assoc]
  rfl

section Unmarked
variable {bytes : List UInt8} (hmark : ¬ Text.byteOrderMark <+: Text.ofBytes bytes)
include hmark

theorem withoutMark_eq : withoutMark (Text.ofBytes bytes) = Text.ofBytes bytes := by
  rcases mark_cases (Text.ofBytes bytes) with ⟨hnone, -⟩ | hstarts
  · exact hnone
  · exact absurd ⟨_, hstarts.symm⟩ hmark

theorem markWidth_eq_zero : markWidth (Text.ofBytes bytes) = 0 := by
  rw [markWidth, withoutMark_eq hmark, Nat.sub_self]

/-- The character above the caret is the one that the lexer complains about. -/
theorem Points.startsWith {shown : Text} {k o : Nat} (h : Points shown k bytes o)
    (ho : BlamedAt (Text.ofBytes bytes) o) {place : Place} {flaw : Lexer.Flaw}
    (hflaw : tokenize (Text.ofBytes bytes) = .error ⟨place, flaw⟩) : flaw.StartsWith (shown[k]?.map Glyph.seen) := by
  obtain ⟨front, rest, hsource, hplace, -, hstarts⟩ := tokenize_error_stops hflaw
  have hat := BlamedAt.lexer ((congrArg tokenize (withoutMark_eq hmark)).trans hflaw)
  rw [markWidth_eq_zero hmark, Nat.zero_add, hplace] at hat
  obtain rfl : front.width = o := hat.unique ho
  obtain ⟨hlength, -, hbehind⟩ := Text.ofBytes_cut hsource
  cases rest with
  | nil => cases hstarts
  | cons g rest =>
    have hpos := g.width_pos
    rw [Text.width_cons] at hlength
    obtain ⟨g', hg', hshown⟩ := h.below (by omega)
    rw [hbehind] at hg'
    rw [hshown, ← hg']
    exact hstarts

/-- What is printed of a source without a byte order mark points at the byte at which the source is wrong. -/
theorem printed_points (h : check (Text.ofBytes bytes) ≠ []) :
    ∃ o d shown k, BlamedAt (Text.ofBytes bytes) o ∧ (∀ o', BlamedAt (Text.ofBytes bytes) o' → o' = o) ∧
      check (Text.ofBytes bytes) = [d] ∧ Points shown k bytes o ∧
      (∀ r, tokenize (Text.ofBytes bytes) = .error r → r.flaw.StartsWith (shown[k]?.map Glyph.seen)) ∧
      ∀ filename, d.printed filename (Text.ofBytes bytes) =
        filename ++ ":" ++ Text.integer d.line ++ ":" ++ Text.integer d.column ++ ": error: " ++ d.message ++ "\n" ++
          (Text.blanks 4 ++ shown ++ "\n") ++ (Text.blanks (4 + k) ++ "^\n") ++
          d.notes.flatMap fun n => ("    note: " ++ n ++ "\n" : Text) := by
  obtain ⟨o, ho⟩ := exists_blamedAt h
  obtain ⟨d, p, hd, hline, hcolumn, ⟨t, u, htext, rfl, hu⟩, rfl⟩ := ho.placed
  rw [withoutMark_eq hmark] at htext
  rw [markWidth_eq_zero hmark, Nat.zero_add] at ho
  have hline : d.line = ↑(1 + t.count (.char '\n')) := hline
  have hcolumn : d.column = ↑(1 + t.lastLine.length) := by
    rw [hcolumn, Text.lastLine, List.length_reverse]
    rfl
  have hpoints := points_behind htext hu
  refine ⟨_, d, _, _, ho, fun o' ho' => ho'.unique ho, hd, hpoints, fun r => hpoints.startsWith hmark ho, ?_⟩
  intro filename
  rw [printed_eq (severity_of_check hd) hcolumn, hline]

end Unmarked

/-- A line that ends in two bytes, then a tab, a letter of two bytes, a stray byte and a carriage return. -/
def strayReturn : List UInt8 := [0x78, 0x0D, 0x0A, 0x09, 0xC4, 0x9F, 0x3D, 0xFF, 0x0D]

theorem printed_points_strayReturn :
    ¬ Text.byteOrderMark <+: Text.ofBytes strayReturn ∧ check (Text.ofBytes strayReturn) ≠ [] ∧
      ∃ d, check (Text.ofBytes strayReturn) = [d] ∧ d.line = 2 ∧ d.column = 4 ∧
        Points [.char ' ', .char 'ğ', .char '=', .byte 0xFF] 3 strayReturn 7 ∧
        d.printed "a.tr" (Text.ofBytes strayReturn) =
          Text.ofString "a.tr:2:4: error: unexpected character '\uFFFD'\n     ğ=" ++ .byte 0xFF ::
            Text.ofString "\n       ^\n" := by
  have hflaw : tokenize (Text.ofBytes strayReturn) =
      .error ⟨⟨2, 4, 7⟩, .unexpected Glyph.replacement⟩ := by decide +kernel
  have hmark : ¬ Text.byteOrderMark <+: Text.ofBytes strayReturn := by decide +kernel
  have hrest := (congrArg tokenize (withoutMark_eq hmark)).trans hflaw
  have hcheck := check_lexer hrest
  have hne : check (Text.ofBytes strayReturn) ≠ [] := by
    rw [hcheck]
    exact List.cons_ne_nil _ _
  have hat := BlamedAt.lexer hrest
  rw [markWidth_eq_zero hmark] at hat
  obtain ⟨o, d, shown, k, -, hone, hd, hpoints, -, hprinted⟩ := printed_points hmark hne
  obtain rfl : 7 = o := hone _ hat
  obtain rfl : shown = [.char ' ', .char 'ğ', .char '=', .byte 0xFF] := hpoints.line.trans (by decide +kernel)
  obtain rfl : k = 3 := hpoints.column.trans (by decide +kernel)
  rw [hd] at hcheck
  cases hcheck
  exact ⟨hmark, hne, _, hd, rfl, rfl, hpoints, (hprinted _).trans (by decide +kernel)⟩

end Anadil.Diagnostic
