import Anadil.Editor.Position
import Anadil.Proofs.Diagnosis

/-! # Where an editor shows a complaint

The range of a complaint starts at the byte at which the text is found wrong, counted as editors count, and holds
the one character that stands there. The checker counts lines and columns behind the byte order mark and looks at
a line without its end; `sourceLine_eq` says what that leaves out. -/

namespace Anadil.Editor

/-- How many units of UTF-16 a text has. -/
def unitsOf (t : Text) : Nat := t.foldr (fun g n => units g.seen + n) 0

/-- The range of a complaint is the character at byte `o`, or the end of the text: its line is the number of line
feeds in front of the byte, and its units are counted from the start of that line. -/
structure Complaint.Marks (c : Complaint) (bytes : List UInt8) (o : Nat) : Prop where
  inside : o ≤ bytes.length
  startLine : c.start.line = UInt32.ofNat ((Text.ofBytes (bytes.take o)).count (.char '\n'))
  start : c.start.character = UInt32.ofNat (unitsOf (Text.ofBytes (bytes.take o)).lastLine)
  stopLine : c.stop.line = c.start.line
  stop : c.stop.character =
    UInt32.ofNat (unitsOf (Text.ofBytes (bytes.take o)).lastLine + unitsOf ((Text.ofBytes (bytes.drop o)).take 1))
  /-- In a text of fewer than 2³² bytes no number is cut short. -/
  fits : bytes.length < UInt32.size → (Text.ofBytes (bytes.take o)).count (.char '\n') < UInt32.size ∧
    unitsOf (Text.ofBytes (bytes.take o)).lastLine + unitsOf ((Text.ofBytes (bytes.drop o)).take 1) < UInt32.size

/-! ### Units -/

theorem unitsOf_cons (g : Glyph) (t : Text) : unitsOf (g :: t) = units g.seen + unitsOf t := rfl

theorem unitsOf_append (t u : Text) : unitsOf (t ++ u) = unitsOf t + unitsOf u := by
  induction t with
  | nil => exact (Nat.zero_add _).symm
  | cons g t ih => rw [List.cons_append, unitsOf_cons, ih, unitsOf_cons, Nat.add_assoc]

theorem unitsOf_le_of_prefix {t u : Text} (h : t <+: u) : unitsOf t ≤ unitsOf u := by
  obtain ⟨v, rfl⟩ := h
  rw [unitsOf_append]
  exact Nat.le_add_right _ _

theorem unitsOf_le_of_suffix {t u : Text} (h : t <:+ u) : unitsOf t ≤ unitsOf u := by
  obtain ⟨v, rfl⟩ := h
  rw [unitsOf_append]
  exact Nat.le_add_left _ _

theorem units_le_width (g : Glyph) : units g.seen ≤ g.width := by
  cases g with
  | byte b => exact Nat.le_refl 1
  | char c =>
    have hpos : 0 < c.utf8Size := Char.utf8Size_pos c
    show units c ≤ c.utf8Size
    unfold units
    by_cases hc : 0x10000 ≤ c.toNat
    · have hne : c.utf8Size ≠ 1 := fun h => by
        have hle : c.toNat ≤ 127 := Char.utf8Size_eq_one_iff.mp h
        omega
      rw [if_pos hc]
      omega
    · rw [if_neg hc]
      exact hpos

theorem unitsOf_le_width (t : Text) : unitsOf t ≤ t.width := by
  induction t with
  | nil => exact Nat.le_refl _
  | cons g t ih =>
    have hg := units_le_width g
    rw [unitsOf_cons, Text.width_cons]
    omega

theorem count_le_width (t : Text) : t.count (.char '\n') ≤ t.width := by
  induction t with
  | nil => exact Nat.le_refl _
  | cons g t ih =>
    have hg := g.width_pos
    have hcons : (g :: t).count (.char '\n') ≤ t.count (.char '\n') + 1 := by
      rw [List.count_cons]
      split <;> omega
    rw [Text.width_cons]
    omega

/-! ### Lines -/

theorem count_mark {mark : Text} (h : mark = [] ∨ mark = Text.byteOrderMark) (t : Text) :
    (mark ++ t).count (.char '\n') = t.count (.char '\n') := by
  rcases h with rfl | rfl
  · rfl
  · exact List.count_cons_of_ne (by decide)

theorem lineAt_eq (t u : Text) :
    lineAt (t ++ u) (1 + t.count (.char '\n')) = Text.dropEnd (t.lastLine ++ u.firstLine) "\r" := by
  rw [lineAt, Nat.add_sub_cancel_left, Text.splitAt_line]
  rfl

/-- The line that holds a place, as the checker sees it: the mark is left out of the first line, and its unit is
counted apart. -/
theorem sourceLine_eq {mark t u : Text}
    (hmark : (mark = [] ∧ ¬ Text.byteOrderMark <+: t ++ u) ∨ mark = Text.byteOrderMark) :
    ∃ extra, sourceLine (mark ++ (t ++ u)) (1 + t.count (.char '\n')) =
        (Text.dropEnd (t.lastLine ++ u.firstLine) "\r", extra) ∧
      extra + unitsOf t.lastLine = unitsOf (mark ++ t).lastLine := by
  have hline := lineAt_eq (mark ++ t) u
  rw [count_mark (hmark.imp_left And.left), List.append_assoc] at hline
  unfold sourceLine
  rw [hline]
  by_cases hnone : .char '\n' ∈ t
  · -- a mark is on the first line only
    have hfirst : ¬ (1 + t.count (.char '\n') = 1) := by
      have := List.count_pos_iff.mpr hnone
      omega
    have hlast : (mark ++ t).lastLine = t.lastLine := Text.lastLine_append_of_mem mark hnone
    refine ⟨0, ?_, by rw [hlast, Nat.zero_add]⟩
    rw [hlast]
    exact if_neg fun h => hfirst h.1
  · have hzero : t.count (.char '\n') = 0 := List.count_eq_zero.mpr hnone
    rcases hmark with ⟨rfl, hmark⟩ | rfl
    · refine ⟨0, if_neg ?_, Nat.zero_add _⟩
      rintro ⟨-, hstarts⟩
      have hhead := List.isPrefixOf_iff_prefix.mp hstarts
      rw [List.nil_append, Text.lastLine_of_notMem hnone] at hhead
      exact hmark (hhead.trans ((Text.dropEnd_prefix _ _).trans
        ((List.prefix_append_right_inj t).mpr (List.takeWhile_prefix _))))
    · have hlast : (Text.byteOrderMark ++ t).lastLine = Text.byteOrderMark ++ t :=
        Text.lastLine_of_notMem (by simpa [Text.byteOrderMark] using hnone)
      have hdrop : Text.dropEnd (Text.byteOrderMark ++ t ++ u.firstLine) "\r" =
          Text.byteOrderMark ++ Text.dropEnd (t ++ u.firstLine) "\r" :=
        Text.dropEnd_append_cons [] (by decide) (t ++ u.firstLine)
      refine ⟨1, ?_, ?_⟩
      · rw [hlast, hdrop, Text.lastLine_of_notMem hnone]
        rw [if_pos ⟨by omega, List.isPrefixOf_iff_prefix.mpr (List.prefix_append _ _)⟩]
        simp only [Text.dropStart, List.isPrefixOf_iff_prefix.mpr (List.prefix_append _ _), ↓reduceIte, List.drop_left]
      · rw [hlast, Text.lastLine_of_notMem hnone, unitsOf_append]
        rfl

/-- What is looked at of a line is enough: a carriage return that was dropped in front of the end of the text
counts one unit, and none was dropped in front of a character that is not white space. -/
theorem units_in_line {t u : Text} (hu : ∀ g ∈ u.head?, Text.isSpace g.seen = false) :
    unitsOf ((Text.dropEnd (t ++ u.firstLine) "\r").take t.length) +
          (t.length - (Text.dropEnd (t ++ u.firstLine) "\r").length) = unitsOf t ∧
      (Text.dropEnd (t ++ u.firstLine) "\r")[t.length]? = u.head? := by
  cases u with
  | nil =>
    rw [show Text.firstLine [] = [] from rfl, List.append_nil]
    rcases Text.dropEnd_return t with hline | hline
    · rw [hline]
      simp
    · have hone : unitsOf [.char '\r'] = 1 := rfl
      generalize Text.dropEnd t "\r" = line at hline
      rw [hline, unitsOf_append, hone, List.take_of_length_le (by simp)]
      simp
  | cons g u =>
    rw [Text.dropEnd_firstLine t (hu g rfl)]
    simp

/-! ### Ranges -/

section Ranges
variable {text shown : Text} {extra n k : Nat} (hline : sourceLine text (1 + n) = (shown, extra))
include hline

theorem position_eq : position text ↑(1 + n) ↑(1 + k) =
    ⟨UInt32.ofNat n, UInt32.ofNat (extra + unitsOf (shown.take k) + (k - shown.length))⟩ := by
  have hn : (max ((1 + n : Nat) : Int) 1).toNat = 1 + n := by omega
  have hk : (max ((1 + k : Nat) : Int) 1).toNat - 1 = k := by omega
  simp only [position, hn, hk, hline, unitsOf, Nat.add_sub_cancel_left]

theorem endOfCharacter_eq (start : Position) : endOfCharacter text ↑(1 + n) ↑(1 + k) start =
    ⟨start.line, start.character + UInt32.ofNat (unitsOf shown[k]?.toList)⟩ := by
  have hk : (((1 + k : Nat) : Int) - 1).toNat = k := by omega
  rw [endOfCharacter, if_pos (by omega), Int.toNat_natCast, hline, hk]
  cases shown[k]? with
  | none => simp [unitsOf]
  | some g => simp [unitsOf]

end Ranges

theorem exists_mark {source rest : Text} (h : withoutMark source = rest) : ∃ mark, source = mark ++ rest ∧
    ((mark = [] ∧ ¬ Text.byteOrderMark <+: rest) ∨ mark = Text.byteOrderMark) := by
  rcases mark_cases source with ⟨hnone, hmark⟩ | hmark
  · rw [hnone] at h
    exact ⟨[], h, .inl ⟨rfl, h ▸ hmark⟩⟩
  · rw [h] at hmark
    exact ⟨Text.byteOrderMark, hmark, .inr rfl⟩

/-- A complaint about a place where the source stops marks the byte there. -/
theorem complaint_marks {bytes : List UInt8} {d : Diagnostic} {p : Place}
    (hstops : p.Stops (withoutMark (Text.ofBytes bytes))) (hline : d.line = p.line) (hcolumn : d.column = p.column) :
    (complaint (Text.ofBytes bytes) d).Marks bytes (markWidth (Text.ofBytes bytes) + p.offset) := by
  obtain ⟨t, u, hsource, rfl, hu⟩ := hstops
  obtain ⟨mark, htext, hmark⟩ := exists_mark hsource
  have hoffset : markWidth (Text.ofBytes bytes) + (Place.behind t).offset = (mark ++ t).width := by
    rw [markWidth, hsource, htext, Text.width_append, Text.width_append mark, Nat.add_sub_cancel]
    rfl
  obtain ⟨hinside, hbefore, hbehind⟩ := Text.ofBytes_cut (htext.trans (List.append_assoc mark t u).symm)
  obtain ⟨extra, hseen, hextra⟩ := sourceLine_eq (t := t) (u := u) hmark
  obtain ⟨hunits, hhead⟩ := units_in_line (t := t.lastLine) hu
  have hcolumn : d.column = ↑(1 + t.lastLine.length) := by
    rw [hcolumn, Text.lastLine, List.length_reverse]
    rfl
  have hline : d.line = ↑(1 + t.count (.char '\n')) := hline
  have hstart : (complaint (Text.ofBytes bytes) d).start =
      ⟨UInt32.ofNat ((mark ++ t).count (.char '\n')), UInt32.ofNat (unitsOf (mark ++ t).lastLine)⟩ := by
    rw [← htext] at hseen
    show position (Text.ofBytes bytes) d.line d.column = _
    rw [hline, hcolumn, position_eq hseen, Nat.add_assoc, hunits, hextra, count_mark (hmark.imp_left And.left)]
  have hstop : (complaint (Text.ofBytes bytes) d).stop = ⟨(complaint (Text.ofBytes bytes) d).start.line,
      (complaint (Text.ofBytes bytes) d).start.character + UInt32.ofNat (unitsOf (u.take 1))⟩ := by
    rw [← htext] at hseen
    show endOfCharacter (Text.ofBytes bytes) d.line d.column (complaint (Text.ofBytes bytes) d).start = _
    rw [hline, hcolumn, endOfCharacter_eq hseen, hhead, List.take_one]
  rw [hoffset]
  refine ⟨by omega, ?_, ?_, ?_, ?_, fun hshort => ⟨?_, ?_⟩⟩
  · rw [hstart, hbefore]
  · rw [hstart, hbefore]
  · rw [hstop]
  · rw [hstop, hstart, hbefore, hbehind, UInt32.ofNat_add]
  · have hlines := count_le_width (mark ++ t)
    rw [hbefore]
    omega
  · have hfront := unitsOf_le_of_suffix (mark ++ t).lastLine_suffix
    have hbehind' := unitsOf_le_of_prefix (List.take_prefix 1 u)
    have hwidth := unitsOf_le_width (mark ++ t)
    have hwidth' := unitsOf_le_width u
    rw [hbefore, hbehind]
    omega

/-- The complaint about a text marks the byte at which the text is wrong. -/
theorem diagnose_marks {bytes : List UInt8} (h : check (Text.ofBytes bytes) ≠ []) :
    ∃ o c, BlamedAt (Text.ofBytes bytes) o ∧ (∀ o', BlamedAt (Text.ofBytes bytes) o' → o' = o) ∧
      diagnose (Text.ofBytes bytes) = [c] ∧ c.Marks bytes o := by
  obtain ⟨o, ho⟩ := exists_blamedAt h
  obtain ⟨d, p, hd, hline, hcolumn, hstops, rfl⟩ := ho.placed
  refine ⟨_, complaint (Text.ofBytes bytes) d, ho, fun o' ho' => ho'.unique ho, ?_,
    complaint_marks hstops hline hcolumn⟩
  rw [diagnose, hd]
  rfl

/-- A mark, a line that ends in two bytes, a character of two units in a string literal, and a stray byte. -/
def strayByte : List UInt8 :=
  [0xEF, 0xBB, 0xBF, 0x78, 0x3D, 0x31, 0x0D, 0x0A, 0x22, 0xF0, 0x9F, 0x98, 0x80, 0x22, 0xFF, 0x0D, 0x0A]

theorem diagnose_marks_strayByte :
    check (Text.ofBytes strayByte) ≠ [] ∧
      ∃ c, diagnose (Text.ofBytes strayByte) = [c] ∧ c.start = ⟨1, 4⟩ ∧ c.stop = ⟨1, 5⟩ ∧
        BlamedAt (Text.ofBytes strayByte) 14 ∧ c.Marks strayByte 14 := by
  have hflaw : tokenize (withoutMark (Text.ofBytes strayByte)) =
      .error ⟨⟨2, 4, 11⟩, .unexpected Glyph.replacement⟩ := by decide +kernel
  have hmark : markWidth (Text.ofBytes strayByte) = 3 := by decide +kernel
  have hrange : (diagnose (Text.ofBytes strayByte)).map (fun c => (c.start, c.stop)) = [(⟨1, 4⟩, ⟨1, 5⟩)] := by
    decide +kernel
  have hcheck : check (Text.ofBytes strayByte) ≠ [] := by
    rw [check_lexer hflaw]
    exact List.cons_ne_nil _ _
  have hat := BlamedAt.lexer hflaw
  rw [hmark] at hat
  obtain ⟨o, c, -, hone, hc, hmarks⟩ := diagnose_marks hcheck
  obtain rfl := hone _ hat
  rw [hc] at hrange
  simp only [List.map_cons, List.map_nil, List.cons.injEq, Prod.mk.injEq, and_true] at hrange
  exact ⟨hcheck, c, hc, hrange.1, hrange.2, hat, hmarks⟩

end Anadil.Editor
