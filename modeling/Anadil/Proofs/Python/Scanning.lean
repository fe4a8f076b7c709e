import Anadil.Proofs.Python.Reader
import Anadil.Proofs.Token.Spelling

/-! # Scanning what is written

Names, numbers, strings and operators are divided off from what stands behind them, as long as that
does not make them longer. -/

namespace Anadil.Python

variable {t rest w digits : Text} {p : Piece} {c : Char}

/-! ### Steps of the scanner -/

theorem scan_nil : scan [] = some [] := by rw [scan]

theorem scan_blank (t : Text) : scan (.char ' ' :: t) = scan t := by
  rw [scan, if_pos rfl]

theorem scan_lex {g : Glyph} (hblank : g ≠ .char ' ')
    (h : lex (g :: t) = some (p, rest)) (hlen : rest.length < (g :: t).length) :
    scan (g :: t) = (scan rest).map (p :: ·) := by
  rw [scan, if_neg hblank, h]
  exact if_pos hlen

/-- A piece that is read off the front comes first. -/
theorem scan_append (hne : w ≠ []) (hblank : w.head? ≠ some (.char ' '))
    (h : lex (w ++ rest) = some (p, rest)) : scan (w ++ rest) = (scan rest).map (p :: ·) := by
  obtain ⟨g, t, rfl⟩ := List.exists_cons_of_ne_nil hne
  refine scan_lex (by simpa using hblank) h ?_
  show rest.length < (t ++ rest).length + 1
  rw [List.length_append]
  omega

/-- How an operator is written. -/
def Op.spelling : Op → String
  | .or => "or"
  | .and => "and"
  | .eq => "=="
  | .ne => "!="
  | .lt => "<"
  | .le => "<="
  | .gt => ">"
  | .ge => ">="
  | .add => "+"
  | .sub => "-"
  | .mul => "*"
  | .div => "/"
  | .mod => "%"

theorem scan_operator (o : Op) (rest : Text) :
    scan (" " ++ (o.spelling : Text) ++ " " ++ rest) = (scan rest).map (.op o :: ·) := by
  have hlex : lex ((o.spelling : Text) ++ .char ' ' :: rest) = some (.op o, .char ' ' :: rest) := by
    cases o <;> rfl
  have hword : (o.spelling : Text) ≠ [] ∧ (o.spelling : Text).head? ≠ some (.char ' ') := by
    cases o <;> decide
  have hscan := scan_append hword.1 hword.2 hlex
  rw [scan_blank] at hscan
  have htext : ((" " : Text) ++ (o.spelling : Text) ++ " " ++ rest : Text) =
      .char ' ' :: ((o.spelling : Text) ++ .char ' ' :: rest) := by
    simp [Text.ofString]
  rw [htext, scan_blank, hscan]

theorem scan_leftParen (rest : Text) : scan (.char '(' :: rest) = (scan rest).map (.leftParen :: ·) :=
  scan_append (w := [.char '(']) (by simp) (by simp) rfl

theorem scan_rightParen (rest : Text) : scan (.char ')' :: rest) = (scan rest).map (.rightParen :: ·) :=
  scan_append (w := [.char ')']) (by simp) (by simp) rfl

theorem scan_comma (rest : Text) : scan (.char ',' :: rest) = (scan rest).map (.comma :: ·) :=
  scan_append (w := [.char ',']) (by simp) (by simp) rfl

theorem scan_minus (hc : c ≠ '=' ∧ c ≠ '>') (rest : Text) :
    scan (.char '-' :: .char c :: rest) = (scan (.char c :: rest)).map (.op .sub :: ·) := by
  refine scan_append (w := [.char '-']) (by simp) (by simp) ?_
  show lone ['=', '>'] (.op .sub) (.char c :: rest) = _
  simp [lone, startsWithAny, hc.1, hc.2]

theorem scan_not (rest : Text) : scan ("not " ++ rest) = (scan rest).map (.not :: ·) := by
  have hscan : scan (("not" : Text) ++ .char ' ' :: rest) = (scan (.char ' ' :: rest)).map (.not :: ·) :=
    scan_append (by decide) (by decide) rfl
  rw [scan_blank] at hscan
  exact hscan

/-! ### Words -/

/-- What stands behind a word or a number does not make it longer. -/
def Ends (rest : Text) : Prop :=
  startsWithAny isWordGlyph rest = false ∧ startsWithAny (fun g => g == .char '"' || g == .char '\'') rest = false

theorem takeWhile_append_stop {p : Glyph → Bool} (hw : ∀ g ∈ w, p g = true)
    (hrest : startsWithAny p rest = false) : (w ++ rest).takeWhile p = w := by
  rw [List.takeWhile_append_of_pos hw]
  cases rest with
  | nil => simp
  | cons g t =>
    have hg : p g = false := hrest
    simp [hg]

theorem dropWhile_append_stop {p : Glyph → Bool} (hw : ∀ g ∈ w, p g = true)
    (hrest : startsWithAny p rest = false) : (w ++ rest).dropWhile p = rest := by
  rw [List.dropWhile_append_of_pos hw]
  cases rest with
  | nil => rfl
  | cons g t =>
    have hg : p g = false := hrest
    simp [hg]

theorem lexWord_append (hw : ∀ g ∈ w, isWordGlyph g = true) (hrest : Ends rest) :
    lexWord (w ++ rest) = (wordPiece w).map (·, rest) := by
  rw [lexWord, takeWhile_append_stop hw hrest.1, dropWhile_append_stop hw hrest.1]
  exact if_neg (by simp [hrest.2])

theorem isWordGlyph_of_isWordPoint (h : Text.isWordPoint c.toNat = true) : isWordGlyph (.char c) = true := by
  by_cases hascii : c.toNat < 0x80
  · have hp := @Lexer.ascii_all (fun c => !Text.isWordPoint c.toNat || isWordGlyph (.char c))
      (by decide +kernel) c hascii
    simpa [h] using hp
  · simp [isWordGlyph, Nat.le_of_not_lt hascii]

theorem not_isDigit_of_isStartPoint (h : Text.isStartPoint c.toNat = true) : c.isDigit = false := by
  by_cases hascii : c.toNat < 0x80
  · have hp := @Lexer.ascii_all (fun c => !Text.isStartPoint c.toNat || !c.isDigit)
      (by decide +kernel) c hascii
    simpa [h] using hp
  · rw [Bool.eq_false_iff]
    intro hdigit
    have hle : c.toNat ≤ 57 := by
      simp only [Char.isDigit, Bool.and_eq_true, decide_eq_true_eq] at hdigit
      exact hdigit.2
    omega

theorem isName_glyphs (h : w.IsName) :
    ∃ (c : Char) (t : Text), w = .char c :: t ∧ c.isDigit = false ∧ ∀ g ∈ w, isWordGlyph g = true := by
  obtain ⟨d, ds, rfl, hd, hds⟩ := h
  refine ⟨d, ds.map .char, rfl, not_isDigit_of_isStartPoint hd, fun g hg => ?_⟩
  rcases List.mem_cons.mp hg with rfl | hg
  · exact isWordGlyph_of_isWordPoint (Text.isWordPoint_of_isStartPoint hd)
  · obtain ⟨e, he, rfl⟩ := List.mem_map.mp hg
    exact isWordGlyph_of_isWordPoint (hds e he)

/-- A word in front of what does not make it longer. -/
theorem scan_word (hp : wordPiece (.char c :: t) = some p)
    (hc : c.isDigit = false) (hw : ∀ g ∈ .char c :: t, isWordGlyph g = true) (hrest : Ends rest) :
    scan (.char c :: t ++ rest) = (scan rest).map (p :: ·) := by
  have hglyph : isWordGlyph (.char c) = true := hw _ List.mem_cons_self
  have hlex : lex (.char c :: t ++ rest) = lexWord (.char c :: t ++ rest) := by simp [lex, hc, hglyph]
  refine scan_append (by simp) ?_ (by rw [hlex, lexWord_append hw hrest, hp]; rfl)
  rintro h
  cases h
  exact absurd hglyph (by decide)

theorem wordPiece_name (h : isReserved w = false) : wordPiece w = some (.name w) := by
  have hne : ∀ r ∈ reserved, w ≠ (r : Text) := by
    rintro r hr rfl
    simp only [isReserved, List.any_eq_false, beq_iff_eq] at h
    exact h r hr rfl
  simp only [wordPiece, if_neg (hne "or" (by decide)), if_neg (hne "and" (by decide)),
    if_neg (hne "not" (by decide)), if_neg (hne "True" (by decide)), if_neg (hne "False" (by decide)),
    if_neg (hne "None" (by decide)), h, Bool.false_eq_true, if_false]

theorem scan_name (hw : w.IsName) (hreserved : isReserved w = false) (hrest : Ends rest) :
    scan (w ++ rest) = (scan rest).map (.name w :: ·) := by
  obtain ⟨c, t, rfl, hc, hglyphs⟩ := isName_glyphs hw
  exact scan_word (wordPiece_name hreserved) hc hglyphs hrest

/-! ### Numbers -/

theorem isDigit_isWordGlyph (h : c.isDigit = true) : isWordGlyph (.char c) = true := by
  simp [isWordGlyph, Char.isAlphanum, h]

theorem isDigits_glyphs (h : w.IsDigits) :
    ∃ (c : Char) (t : Text), w = .char c :: t ∧ c.isDigit = true ∧ ∀ g ∈ w, isDigitGlyph g = true := by
  obtain ⟨ds, hne, rfl, hds⟩ := h
  obtain ⟨d, ds, rfl⟩ := List.exists_cons_of_ne_nil hne
  refine ⟨d, ds.map .char, rfl, hds d List.mem_cons_self, fun g hg => ?_⟩
  obtain ⟨e, he, rfl⟩ := List.mem_map.mp hg
  exact hds e he

theorem startsWithAny_mono {p q : Glyph → Bool} (h : ∀ g, q g = true → p g = true)
    (ht : startsWithAny p t = false) : startsWithAny q t = false := by
  cases t with
  | nil => rfl
  | cons g t => exact Bool.eq_false_iff.mpr fun hq => by simp [startsWithAny, h g hq] at ht

theorem isDigitGlyph_isWordGlyph {g : Glyph} (h : isDigitGlyph g = true) : isWordGlyph g = true := by
  match g with
  | .char c => exact isDigit_isWordGlyph h

theorem lexNumber_decimal {whole fraction : Text} (hwhole : whole.IsDigits)
    (hfraction : fraction.IsDigits) (hrest : startsWithAny isWordGlyph rest = false) :
    lexNumber (whole ++ .char '.' :: fraction ++ rest) =
      some (.decimal (whole ++ .char '.' :: fraction), rest) := by
  obtain ⟨-, -, -, -, hw⟩ := isDigits_glyphs hwhole
  obtain ⟨-, -, -, -, hf⟩ := isDigits_glyphs hfraction
  have hpoint : startsWithAny isDigitGlyph (.char '.' :: (fraction ++ rest)) = false := rfl
  have hdigit := startsWithAny_mono (fun _ => isDigitGlyph_isWordGlyph) hrest
  rw [List.append_assoc, List.cons_append, lexNumber, takeWhile_append_stop hw hpoint,
    dropWhile_append_stop hw hpoint]
  simp only [takeWhile_append_stop hf hdigit, dropWhile_append_stop hf hdigit, hrest]
  rfl

/-- An integer that begins with no zero unless it is one. -/
theorem lexNumber_integer {whole : Text} (hwhole : whole.IsDigits)
    (hzero : whole.head? = some (.char '0') → whole.length = 1)
    (hrest : startsWithAny isWordGlyph rest = false) (hpoint : startsWithAny (· == .char '.') rest = false) :
    lexNumber (whole ++ rest) = some (.integer (valueOf whole), rest) := by
  obtain ⟨-, -, -, -, hw⟩ := isDigits_glyphs hwhole
  have hdigit := startsWithAny_mono (fun _ => isDigitGlyph_isWordGlyph) hrest
  rw [lexNumber, takeWhile_append_stop hw hdigit, dropWhile_append_stop hw hdigit]
  have hcond : (startsWithAny isWordGlyph rest ||
      (whole.head? == some (.char '0') && decide (1 < whole.length))) = false := by
    simp only [hrest, Bool.false_or, Bool.and_eq_false_iff, beq_eq_false_iff_ne, decide_eq_false_iff_not]
    by_cases h : whole.head? = some (.char '0')
    · exact .inr (by rw [hzero h]; omega)
    · exact .inl h
  split
  · simp [startsWithAny] at hpoint
  · simp only [hcond]
    rfl

theorem valueOf_dropWhile (digits : Text) : valueOf (digits.dropWhile (·.is '0')) = valueOf digits := by
  induction digits with
  | nil => rfl
  | cons g t ih =>
    rw [List.dropWhile_cons]
    split
    · rename_i hg
      match g with
      | .char c =>
        obtain rfl : '0' = c := by simpa [Glyph.is] using hg
        rw [ih]
        rfl
    · rfl

/-- The piece that a number is. -/
def numberPiece (digits : Text) : Piece :=
  if digits.any (·.is '.') then .decimal digits else .integer (valueOf digits)

theorem lex_digit (hc : c.isDigit = true) : lex (.char c :: t) = lexNumber (.char c :: t) := by
  simp [lex, hc]

theorem no_point_of_isDigits (h : w.IsDigits) : w.any (·.is '.') = false := by
  obtain ⟨-, -, -, -, hw⟩ := isDigits_glyphs h
  rw [List.any_eq_false]
  intro g hg hpoint
  match g with
  | .char c =>
    obtain rfl : '.' = c := by simpa [Glyph.is] using hpoint
    exact absurd (hw _ hg) (by decide)

/-- An integer without the zeros in front is one that Python reads. -/
theorem number_integer (h : digits.IsDigits) :
    (number digits).IsDigits ∧ valueOf (number digits) = valueOf digits ∧
      ((number digits).head? = some (.char '0') → (number digits).length = 1) := by
  have hvalue := valueOf_dropWhile digits
  cases hdrop : digits.dropWhile (·.is '0') with
  | nil =>
    have hnumber : number digits = "0" := by
      rw [number, no_point_of_isDigits h, hdrop]
      rfl
    rw [hdrop] at hvalue
    rw [hnumber]
    exact ⟨⟨['0'], by simp, rfl, by simp⟩, hvalue, fun _ => rfl⟩
  | cons g rest =>
    have hnumber : number digits = digits.dropWhile (·.is '0') := by
      rw [number, no_point_of_isDigits h, hdrop]
      rfl
    rw [hnumber]
    refine ⟨?_, hvalue, fun hhead => ?_⟩
    · obtain ⟨ds, -, rfl, hds⟩ := h
      refine ⟨ds.dropWhile (Glyph.is '0' ∘ .char), ?_, List.dropWhile_map .., fun d hd => ?_⟩
      · rintro hnil
        rw [List.dropWhile_map, hnil] at hdrop
        cases hdrop
      · exact hds d ((List.dropWhile_suffix _).subset hd)
    · have hfirst := List.head?_dropWhile_not (fun g : Glyph => g.is '0') digits
      rw [hhead] at hfirst
      exact absurd hfirst (by decide)

theorem number_first (h : digits.IsNumeral) :
    ∃ (c : Char) (t : Text), number digits = .char c :: t ∧ c.isDigit = true := by
  rcases h with h | ⟨whole, fraction, hwhole, -, rfl⟩
  · obtain ⟨c, t, heq, hc, -⟩ := isDigits_glyphs (number_integer h).1
    exact ⟨c, t, heq, hc⟩
  · obtain ⟨c, t, rfl, hc, -⟩ := isDigits_glyphs hwhole
    refine ⟨c, t ++ .char '.' :: fraction, ?_, hc⟩
    rw [number, if_pos (by simp [Glyph.is])]
    rfl

/-- A number is one piece if neither a letter nor a point follows it. -/
theorem scan_number (h : digits.IsNumeral)
    (hrest : startsWithAny isWordGlyph rest = false) (hpoint : startsWithAny (· == .char '.') rest = false) :
    scan (number digits ++ rest) = (scan rest).map (numberPiece digits :: ·) := by
  have hlex : lexNumber (number digits ++ rest) = some (numberPiece digits, rest) := by
    rcases h with h | ⟨whole, fraction, hwhole, hfraction, rfl⟩
    · obtain ⟨hdigits, hvalue, hzero⟩ := number_integer h
      rw [numberPiece, no_point_of_isDigits h, ← hvalue]
      exact lexNumber_integer hdigits hzero hrest hpoint
    · have hany : (whole ++ .char '.' :: fraction).any (·.is '.') = true := by simp [Glyph.is]
      rw [numberPiece, number, hany]
      exact lexNumber_decimal hwhole hfraction hrest
  obtain ⟨c, t, heq, hc⟩ := number_first h
  rw [heq] at hlex ⊢
  refine scan_append (by simp) ?_ ((lex_digit hc).trans hlex)
  rintro hblank
  cases hblank
  exact absurd hc (by decide)

/-! ### Strings -/

theorem hex_control (h : c.toNat < 0x20 ∨ c.toNat = 0x7f) :
    ∃ a b, Text.hex 2 c.toNat = [.char a, .char b] ∧ hexChar? a b = some c := by
  have hp := @Lexer.ascii_all (fun c => !(decide (c.toNat < 0x20 ∨ c.toNat = 0x7f)) ||
    (Text.hex 2 c.toNat == [.char (Nat.digitChar (c.toNat / 16)), .char (Nat.digitChar (c.toNat % 16))] &&
      hexChar? (Nat.digitChar (c.toNat / 16)) (Nat.digitChar (c.toNat % 16)) == some c))
    (by decide +kernel) c (by omega)
  simp only [h, decide_true, Bool.not_true, Bool.false_or, Bool.and_eq_true, beq_iff_eq] at hp
  exact ⟨_, _, hp⟩

theorem content_escapedChar (c : Char) (rest : Text) :
    content (escapedChar c ++ rest) = (content rest).map (addChar c) := by
  unfold escapedChar
  split
  · rfl
  · rfl
  · rfl
  · rfl
  · rfl
  · rename_i hbackslash hquote hline hreturn htab
    split
    · rename_i hcontrol
      obtain ⟨a, b, hhex, hchar⟩ := hex_control hcontrol
      rw [hhex]
      show content (.char '\\' :: .char 'x' :: .char a :: .char b :: rest) = _
      rw [content.eq_def]
      simp [hchar]
    · show content (.char c :: rest) = _
      rw [content.eq_def]
      exact (if_neg hquote).trans ((if_neg hbackslash).trans (if_neg (not_or.mpr ⟨hline, hreturn⟩)))

theorem content_escaped (h : t.isClean = true) (rest : Text) :
    content (t.flatMap (fun g => escapedChar g.seen) ++ .char '"' :: rest) = some (t, rest) := by
  induction t with
  | nil =>
    show content (.char '"' :: rest) = _
    rw [content.eq_def]
    exact if_pos rfl
  | cons g t ih =>
    match g with
    | .char c =>
      rw [List.flatMap_cons, List.append_assoc, content_escapedChar]
      rw [ih (by simpa [Text.isClean] using h)]
      rfl
    | .byte b => simp [Text.isClean] at h

/-- A string is one piece if no quote follows it. -/
theorem scan_string (h : t.isClean = true) (hrest : startsWithAny (· == .char '"') rest = false) :
    scan (string t ++ rest) = (scan rest).map (.string t :: ·) := by
  refine scan_append (by simp [string]) (by simp [string]) ?_
  have hlex : lex (string t ++ rest) =
      lexString (t.flatMap (fun g => escapedChar g.seen) ++ .char '"' :: rest) := by
    simp [string, lex, isWordGlyph]
  rw [hlex, lexString, content_escaped h]
  exact if_neg (by simp [hrest])

end Anadil.Python
