import Mathlib.Data.Char
import Mathlib.Data.List.Lex
import Mathlib.Data.UInt
import Anadil.Proofs.Text.Utf8
import Anadil.Time

/-! # The order of times

Times are put in order by their texts. Two times never have the same text, so that order is total, and in
the years 0 to 9999, whose texts all have the same length, it is the order of the times. -/

namespace Anadil

variable {cs ds : List Char} {c : Char} {y n : Int} {a b : Instant}

/-! ### Texts of ASCII -/

namespace Text

/-- The byte of a character of ASCII. -/
def asciiByte (c : Char) : UInt8 := UInt8.ofNat c.toNat

theorem bytes_ascii (h : ∀ c ∈ cs, c.toNat < 128) : bytes (cs.map .char) = cs.map asciiByte := by
  induction cs with
  | nil => rfl
  | cons c cs ih =>
    obtain ⟨hc, hcs⟩ := List.forall_mem_cons.mp h
    have hone : String.utf8EncodeChar c = [asciiByte c] := by
      have hval : c.val.toNat < 128 := hc
      simp only [String.utf8EncodeChar, asciiByte]
      rw [if_pos (by omega)]
      rfl
    have htail : (cs.map Glyph.char).flatMap Glyph.bytes = cs.map asciiByte := ih hcs
    simp only [bytes, List.map_cons, List.flatMap_cons, Glyph.bytes, hone, htail, List.singleton_append]

theorem asciiByte_lt {d : Char} (hc : c.toNat < 128) (hd : d.toNat < 128) :
    asciiByte c < asciiByte d ↔ c < d := by
  simp only [asciiByte, UInt8.lt_iff_toNat_lt, UInt8.toNat_ofNat', Char.lt_def, UInt32.lt_iff_toNat_lt]
  have h : ∀ e : Char, e.val.toNat = e.toNat := fun _ => rfl
  rw [h, h]
  omega

theorem asciiByte_inj {d : Char} (hc : c.toNat < 128) (hd : d.toNat < 128)
    (h : asciiByte c = asciiByte d) : c = d := by
  have hn := congrArg UInt8.toNat h
  simp only [asciiByte, UInt8.toNat_ofNat'] at hn
  exact Char.toNat_inj.mp (by omega)

theorem bytes_lt_ascii (hcs : ∀ c ∈ cs, c.toNat < 128) (hds : ∀ c ∈ ds, c.toNat < 128) :
    cs.map asciiByte < ds.map asciiByte ↔ cs < ds := by
  induction cs generalizing ds with
  | nil => cases ds <;> simp
  | cons c cs ih =>
    cases ds with
    | nil => simp
    | cons d ds =>
      obtain ⟨hc, hcs⟩ := List.forall_mem_cons.mp hcs
      obtain ⟨hd, hds⟩ := List.forall_mem_cons.mp hds
      have heq : asciiByte c = asciiByte d ↔ c = d := ⟨asciiByte_inj hc hd, congrArg _⟩
      rw [List.map_cons, List.map_cons, List.cons_lt_cons_iff, List.cons_lt_cons_iff, asciiByte_lt hc hd,
        heq, ih hcs hds]

theorem before_ascii (hcs : ∀ c ∈ cs, c.toNat < 128) (hds : ∀ c ∈ ds, c.toNat < 128) :
    before (cs.map .char) (ds.map .char) = true ↔ cs < ds := by
  rw [before, decide_eq_true_iff, bytes_ascii hcs, bytes_ascii hds, bytes_lt_ascii hcs hds]

end Text

namespace Time

/-! ### Numbers of a fixed width -/

/-- A number in at least `width` digits. -/
def field (width n : Nat) : List Char :=
  List.replicate (width - (Nat.toDigits 10 n).length) '0' ++ Nat.toDigits 10 n

section Fields
variable {width n : Nat}

theorem field_digits : ∀ c ∈ field width n, c.isDigit = true := by
  intro c hc
  rcases List.mem_append.mp hc with hzero | hdigit
  · rw [(List.mem_replicate.mp hzero).2]
    rfl
  · exact Nat.isDigit_of_mem_toDigits (by decide) (by decide) hdigit

theorem ofDigitChars_field : Nat.ofDigitChars 10 (field width n) 0 = n := by
  rw [field, Nat.ofDigitChars_append, Nat.ofDigitChars_replicate_zero, Nat.mul_zero,
    Nat.ofDigitChars_ten_toDigits]

theorem length_field (hwidth : 0 < width) (hn : n < 10 ^ width) : (field width n).length = width := by
  have hle := (Nat.length_toDigits_le_iff (by decide) hwidth).mpr hn
  rw [field, List.length_append, List.length_replicate]
  omega

theorem isDigit_iff : c.isDigit = true ↔ 48 ≤ c.toNat ∧ c.toNat ≤ 57 := by
  simp only [Char.isDigit, Bool.and_eq_true, decide_eq_true_eq, ge_iff_le, UInt32.le_iff_toNat_le]
  rfl

theorem ofDigitChars_zero_cons (c : Char) (cs : List Char) :
    Nat.ofDigitChars 10 (c :: cs) 0 = 10 ^ cs.length * (c.toNat - 48) + Nat.ofDigitChars 10 cs 0 := by
  rw [Nat.ofDigitChars_cons, Nat.ofDigitChars_eq_ofDigitChars_zero, Nat.mul_zero, Nat.zero_add]
  rfl

theorem ofDigitChars_lt (h : ∀ c ∈ cs, c.isDigit = true) : Nat.ofDigitChars 10 cs 0 < 10 ^ cs.length := by
  induction cs with
  | nil => decide
  | cons c cs ih =>
    obtain ⟨hc, hcs⟩ := List.forall_mem_cons.mp h
    obtain ⟨hlow, hhigh⟩ := isDigit_iff.mp hc
    have hlt := ih hcs
    have hmul := Nat.mul_le_mul_left (10 ^ cs.length) (show c.toNat - 48 ≤ 9 by omega)
    rw [ofDigitChars_zero_cons, List.length_cons, Nat.pow_succ]
    omega

/-- Digits of the same number are in the order of what they write. -/
theorem digits_lt_iff (hcs : ∀ c ∈ cs, c.isDigit = true)
    (hds : ∀ c ∈ ds, c.isDigit = true) (hlength : cs.length = ds.length) :
    cs < ds ↔ Nat.ofDigitChars 10 cs 0 < Nat.ofDigitChars 10 ds 0 := by
  induction cs generalizing ds with
  | nil =>
    obtain rfl := List.length_eq_zero_iff.mp hlength.symm
    simp
  | cons c cs ih =>
    cases ds with
    | nil => simp at hlength
    | cons d ds =>
      have hlength : cs.length = ds.length := Nat.succ.inj hlength
      obtain ⟨hc, hcs⟩ := List.forall_mem_cons.mp hcs
      obtain ⟨hd, hds⟩ := List.forall_mem_cons.mp hds
      have hcs_lt := ofDigitChars_lt hcs
      have hds_lt := ofDigitChars_lt hds
      obtain ⟨hc48, -⟩ := isDigit_iff.mp hc
      obtain ⟨hd48, -⟩ := isDigit_iff.mp hd
      have hchar : c < d ↔ c.toNat < d.toNat := Iff.rfl
      rw [List.cons_lt_cons_iff, ih hcs hds hlength, ofDigitChars_zero_cons, ofDigitChars_zero_cons, ← hlength,
        hchar]
      rw [← hlength] at hds_lt
      rcases Nat.lt_trichotomy c.toNat d.toNat with hlt | heq | hgt
      · have hmul := Nat.mul_le_mul_left (10 ^ cs.length) (show c.toNat - 48 + 1 ≤ d.toNat - 48 by omega)
        rw [Nat.mul_add, Nat.mul_one] at hmul
        exact ⟨fun _ => by omega, fun _ => .inl hlt⟩
      · have hcd : c = d := Char.toNat_inj.mp heq
        rw [heq]
        constructor
        · rintro (hlt | ⟨-, hlt⟩)
          · omega
          · omega
        · intro hlt
          exact .inr ⟨hcd, by omega⟩
      · have hmul := Nat.mul_le_mul_left (10 ^ cs.length) (show d.toNat - 48 + 1 ≤ c.toNat - 48 by omega)
        rw [Nat.mul_add, Nat.mul_one] at hmul
        constructor
        · rintro (hlt | ⟨hcd, -⟩)
          · omega
          · rw [hcd] at hgt
            omega
        · intro hlt
          omega

end Fields

/-! ### Several numbers -/

/-- Numbers of given widths, each with a character behind it. -/
def fields : List (Nat × Char) → List Nat → List Char
  | (width, mark) :: form, n :: ns => field width n ++ mark :: fields form ns
  | _, _ => []

/-- Numbers fit into fields of given widths. -/
def Fit : List (Nat × Char) → List Nat → Prop
  | [], [] => True
  | (width, _) :: form, n :: ns => 0 < width ∧ n < 10 ^ width ∧ Fit form ns
  | _, _ => False

section Forms
variable {form : List (Nat × Char)} {ns ms : List Nat}

theorem append_lt_append_iff {α : Type} [LinearOrder α] {as bs cs ds : List α}
    (h : as.length = bs.length) : as ++ cs < bs ++ ds ↔ as < bs ∨ as = bs ∧ cs < ds := by
  induction as generalizing bs with
  | nil =>
    obtain rfl := List.length_eq_zero_iff.mp h.symm
    simp
  | cons a as ih =>
    cases bs with
    | nil => simp at h
    | cons b bs =>
      rw [List.cons_append, List.cons_append, List.cons_lt_cons_iff, List.cons_lt_cons_iff,
        ih (Nat.succ.inj h), List.cons.injEq]
      tauto

theorem fields_lt_iff (hns : Fit form ns) (hms : Fit form ms) : fields form ns < fields form ms ↔ ns < ms := by
  induction form generalizing ns ms with
  | nil =>
    cases ns with
    | nil =>
      cases ms with
      | nil => simp [fields]
      | cons => exact hms.elim
    | cons => exact hns.elim
  | cons f form ih =>
    obtain ⟨width, mark⟩ := f
    cases ns with
    | nil => exact hns.elim
    | cons n ns =>
      cases ms with
      | nil => exact hms.elim
      | cons m ms =>
        obtain ⟨hwidth, hn, hns⟩ := hns
        obtain ⟨-, hm, hms⟩ := hms
        have hlength : (field width n).length = (field width m).length := by
          rw [length_field hwidth hn, length_field hwidth hm]
        have heq : field width n = field width m ↔ n = m := by
          constructor
          · intro h
            rw [← @ofDigitChars_field width n, h, ofDigitChars_field]
          · exact congrArg _
        rw [fields, fields, append_lt_append_iff hlength, digits_lt_iff field_digits field_digits hlength,
          ofDigitChars_field, ofDigitChars_field, heq, List.cons_lt_cons_iff, List.cons_lt_cons_iff,
          ih hns hms]
        simp only [lt_self_iff_false, true_and, false_or]

theorem fields_inj (hns : Fit form ns) (hms : Fit form ms) (h : fields form ns = fields form ms) : ns = ms := by
  rcases lt_trichotomy ns ms with hlt | heq | hgt
  · exact absurd ((fields_lt_iff hns hms).mpr hlt) (by rw [h]; exact lt_irrefl _)
  · exact heq
  · exact absurd ((fields_lt_iff hms hns).mpr hgt) (by rw [h]; exact lt_irrefl _)

theorem length_fields (hns : Fit form ns) (hms : Fit form ms) :
    (fields form ns).length = (fields form ms).length := by
  induction form generalizing ns ms with
  | nil =>
    cases ns <;> cases ms <;> rfl
  | cons f form ih =>
    cases ns with
    | nil => exact hns.elim
    | cons n ns =>
      cases ms with
      | nil => exact hms.elim
      | cons m ms =>
        simp only [fields, List.length_append, List.length_cons, length_field hns.1 hns.2.1,
          length_field hms.1 hms.2.1, ih hns.2.2 hms.2.2]

theorem fields_ascii (hform : ∀ f ∈ form, f.2.toNat < 128) : ∀ c ∈ fields form ns, c.toNat < 128 := by
  induction form generalizing ns with
  | nil => simp [fields]
  | cons f form ih =>
    obtain ⟨hf, hform⟩ := List.forall_mem_cons.mp hform
    cases ns with
    | nil => simp [fields]
    | cons n ns =>
      intro c hc
      rcases List.mem_append.mp hc with hdigit | hbehind
      · have := (isDigit_iff.mp (field_digits c hdigit)).2
        omega
      · rcases List.mem_cons.mp hbehind with rfl | hmem
        · exact hf
        · exact ih hform c hmem

end Forms

/-! ### The calendar -/

/-- The days before a year that starts in March, counted from the start of such a year 0. -/
def yearStart (y : Int) : Int := 365 * y + y / 4 - y / 100 + y / 400

/-- The days before a month, counted from March. -/
def monthStart (m : Int) : Int := (153 * m + 2) / 5

theorem yearStart_mono {z : Int} (h : y ≤ z) : yearStart y ≤ yearStart z := by
  have hleap : y / 4 ≤ z / 4 := Int.ediv_le_ediv (by decide) h
  have hskip : z / 100 ≤ y / 100 + (z - y) := by omega
  have hera : y / 400 ≤ z / 400 := Int.ediv_le_ediv (by decide) h
  unfold yearStart
  omega

theorem yearStart_succ_le (y : Int) : yearStart (y + 1) ≤ yearStart y + 366 := by
  unfold yearStart
  have hera : (y + 1) / 400 = y / 400 ∨ y + 1 = 400 * ((y + 1) / 400) := by omega
  rcases hera with h | h <;> omega

/-- The year is the one in which the day of the era lies. -/
theorem yearOfEra {e : Int} (hlow : 0 ≤ e) (hhigh : e < 146097)
    (hy : y = (e - e / 1460 + e / 36524 - e / 146096) / 365) :
    0 ≤ y ∧ y < 400 ∧ yearStart y ≤ e ∧ e < yearStart (y + 1) := by
  have hcentury : e / 36524 = 0 ∨ e / 36524 = 1 ∨ e / 36524 = 2 ∨ e / 36524 = 3 ∨ e = 146096 := by omega
  have hyear : 0 ≤ y ∧ y < 400 := by omega
  have hleap : y / 4 ≤ e / 1460 := by omega
  have hleap' : e / 1460 ≤ (y + 1) / 4 := by omega
  have hskip : e / 36524 - e / 146096 ≤ y / 100 := by
    rcases hcentury with h | h | h | h | h <;> omega
  refine ⟨hyear.1, hyear.2, ?_, ?_⟩
  · have hera : y / 400 = 0 := Int.ediv_eq_zero_of_lt hyear.1 hyear.2
    have hdays : 365 * y ≤ e - e / 1460 + e / 36524 - e / 146096 := by omega
    unfold yearStart
    clear hy hcentury hleap'
    omega
  · have hskip' : (y + 1) / 100 ≤ e / 36524 ∨ y = 100 * (e / 36524) + 99 ∨ e = 146096 := by
      rcases hcentury with h | h | h | h | h <;> omega
    unfold yearStart
    rcases hskip' with h | h | h <;> omega

/-- A day by its year and month, both from March, and its place in the month. -/
structure Dated (n year month day : Int) : Prop where
  monthRange : 0 ≤ month ∧ month ≤ 11
  dayRange : 1 ≤ day ∧ day ≤ 31
  eq : n + 719468 = yearStart year + monthStart month + day - 1
  withinYear : n + 719468 < yearStart (year + 1)
  withinMonth : monthStart month + day - 1 < monthStart (month + 1)

/-- The date of a day is that of a calendar whose years begin in March. -/
theorem dateOfDays_dated (n : Int) : ∃ year month day, Dated n year month day ∧
    dateOfDays n = (if month < 10 then year else year + 1, if month < 10 then month + 3 else month - 9, day) := by
  have hfdiv : (n + 719468).fdiv 146097 = (n + 719468) / 146097 := Int.fdiv_eq_ediv_of_nonneg _ (by decide)
  -- the day of the era, the year of the era, the day of the year and the month from March
  obtain ⟨era, hera⟩ : ∃ era, era = (n + 719468) / 146097 := ⟨_, rfl⟩
  obtain ⟨e, he⟩ : ∃ e, e = n + 719468 - era * 146097 := ⟨_, rfl⟩
  obtain ⟨y, hy⟩ : ∃ y, y = (e - e / 1460 + e / 36524 - e / 146096) / 365 := ⟨_, rfl⟩
  obtain ⟨d, hd⟩ : ∃ d, d = e - (365 * y + y / 4 - y / 100) := ⟨_, rfl⟩
  obtain ⟨m, hm⟩ : ∃ m, m = (5 * d + 2) / 153 := ⟨_, rfl⟩
  obtain ⟨hylow, hyhigh, hstart, hnext⟩ := yearOfEra (by omega) (by omega) hy
  have hshift : ∀ k, yearStart (k + era * 400) = yearStart k + era * 146097 := by
    intro k
    unfold yearStart
    omega
  have hyear : yearStart y = 365 * y + y / 4 - y / 100 := by
    unfold yearStart
    omega
  have hlength := yearStart_succ_le y
  refine ⟨y + era * 400, m, d - monthStart m + 1, ⟨?_, ?_, ?_, ?_, ?_⟩, ?_⟩
  · omega
  · unfold monthStart
    omega
  · rw [hshift]
    omega
  · rw [show y + era * 400 + 1 = y + 1 + era * 400 by omega, hshift]
    omega
  · unfold monthStart
    omega
  · simp only [dateOfDays, hfdiv, ← hera, ← he, ← hy, ← hd, ← hm, monthStart]
    have hmonth : (if m < 10 then m + 3 else m - 9) ≤ 2 ↔ ¬ m < 10 := by
      split <;> omega
    simp only [hmonth, ite_not]

/-- A later day has a later month, or it stands later in the same month. -/
theorem Dated.lt {n' y' m m' d d' : Int} (h : Dated n y m d) (h' : Dated n' y' m' d') (hlt : n < n') :
    12 * y + m < 12 * y' + m' ∨ y = y' ∧ m = m' ∧ d < d' := by
  have hmonth := h.monthRange
  have hmonth' := h'.monthRange
  have heq := h.eq
  have heq' := h'.eq
  have hyear : y ≤ y' := by
    by_contra hlater
    have hstart := yearStart_mono (show y' + 1 ≤ y by omega)
    have hwithin := h'.withinYear
    have hzero : 0 ≤ monthStart m + d - 1 := by
      have hday := h.dayRange
      unfold monthStart
      omega
    omega
  rcases Int.lt_or_eq_of_le hyear with hyear | rfl
  · omega
  · have hwithin := h'.withinMonth
    have hday := h.dayRange
    have hmono : m' < m → monthStart (m' + 1) ≤ monthStart m := by
      intro hm
      unfold monthStart
      omega
    by_cases hm : m = m'
    · subst hm
      omega
    · omega

/-! ### The parts of a text -/

/-- The day of an instant, counted from the epoch. -/
def dayOf (t : Instant) : Int := t.fdiv 86400

/-- The second of its day that an instant is in. -/
def secondOf (t : Instant) : Int := t - dayOf t * 86400

/-- The year of an instant. -/
def yearOf (t : Instant) : Int := (dateOfDays (dayOf t)).1

/-- The numbers behind the year: month, day, hour, minute and second. -/
def clockOf (t : Instant) : List Nat :=
  [(dateOfDays (dayOf t)).2.1.toNat, (dateOfDays (dayOf t)).2.2.toNat, (secondOf t / 3600).toNat,
    (secondOf t / 60 % 60).toNat, (secondOf t % 60).toNat]

/-- The widths of the numbers behind the year, and what stands behind each. -/
def clockForm : List (Nat × Char) := [(2, '-'), (2, 'T'), (2, ':'), (2, ':'), (2, 'Z')]

/-- A number in at least `width` digits, with its sign. -/
def signed (width : Nat) (n : Int) : List Char := (if n < 0 then ['-'] else []) ++ field width n.natAbs

/-- An instant as it is written. -/
def written (t : Instant) : List Char := signed 4 (yearOf t) ++ '-' :: fields clockForm (clockOf t)

theorem digits_eq (width : Nat) (n : Int) : digits width n = (signed width n).map .char := by
  unfold digits signed field Text.decimal
  split <;> simp [Text.ofString]

theorem digits_eq_field {width : Nat} (h : 0 ≤ n) : digits width n = (field width n.toNat).map .char := by
  rw [digits_eq, signed, if_neg (by omega), List.nil_append, show n.natAbs = n.toNat by omega]

theorem dayOf_eq (t : Instant) : dayOf t = t / 86400 := Int.fdiv_eq_ediv_of_nonneg _ (by decide)

theorem secondOf_range (t : Instant) : 0 ≤ secondOf t ∧ secondOf t < 86400 := by
  rw [secondOf, dayOf_eq]
  omega

theorem date_range (n : Int) : (1 ≤ (dateOfDays n).2.1 ∧ (dateOfDays n).2.1 ≤ 12) ∧
    1 ≤ (dateOfDays n).2.2 ∧ (dateOfDays n).2.2 ≤ 31 := by
  obtain ⟨y, m, d, h, heq⟩ := dateOfDays_dated n
  have hmonth := h.monthRange
  rw [heq]
  refine ⟨?_, h.dayRange⟩
  dsimp only
  split <;> omega

theorem fit_clockOf (t : Instant) : Fit clockForm (clockOf t) := by
  obtain ⟨hmonth, hday⟩ := date_range (dayOf t)
  have hsecond := secondOf_range t
  refine ⟨?_, ?_, ?_, ?_, ?_, ?_, ?_, ?_, ?_, ?_, trivial⟩
  all_goals omega

theorem text_eq (t : Instant) : text t 0 = (written t).map .char := by
  obtain ⟨hmonth, hday⟩ := date_range (dayOf t)
  have hsecond := secondOf_range t
  have hparts : text t 0 = digits 4 (yearOf t) ++ "-" ++ digits 2 (dateOfDays (dayOf t)).2.1 ++ "-" ++
      digits 2 (dateOfDays (dayOf t)).2.2 ++ "T" ++ digits 2 (secondOf t / 3600) ++ ":" ++
      digits 2 (secondOf t / 60 % 60) ++ ":" ++ digits 2 (secondOf t % 60) ++ "Z" := by
    simp only [text, Int.add_zero, yearOf, secondOf, dayOf]
    rfl
  rw [hparts, digits_eq 4, digits_eq_field (by omega), digits_eq_field (by omega),
    digits_eq_field (by omega), digits_eq_field (by omega), digits_eq_field (by omega)]
  simp [written, fields, clockForm, clockOf, Text.ofString]

theorem written_ascii (t : Instant) : ∀ c ∈ written t, c.toNat < 128 := by
  have hform : ∀ f ∈ clockForm, f.2.toNat < 128 := by decide
  have hfield : ∀ c ∈ field 4 (yearOf t).natAbs, c.toNat < 128 := by
    intro c hc
    have := (isDigit_iff.mp (field_digits c hc)).2
    omega
  intro c hc
  rcases List.mem_append.mp hc with hyear | hbehind
  · rcases List.mem_append.mp hyear with hsign | hdigit
    · split at hsign
      · rw [List.mem_singleton.mp hsign]
        decide
      · cases hsign
    · exact hfield c hdigit
  · rcases List.mem_cons.mp hbehind with rfl | hmem
    · decide
    · exact fields_ascii hform c hmem

theorem before_iff_written : before a b = true ↔ written a < written b := by
  rw [before, text_eq, text_eq, Text.before_ascii (written_ascii a) (written_ascii b)]

/-! ### Times and their texts -/

theorem signed_inj {width : Nat} {m : Int} (h : signed width n = signed width m) : n = m := by
  have hvalue : ∀ {k : Int}, 0 ≤ k → Nat.ofDigitChars 10 (signed width k) 0 = k.natAbs := by
    intro k hk
    rw [signed, if_neg (by omega), List.nil_append, ofDigitChars_field]
  -- a minus is no digit
  have hsign : ∀ {k : Int}, '-' ∈ signed width k ↔ k < 0 := by
    intro k
    have hdigits : '-' ∉ field width k.natAbs := fun hmem => absurd (field_digits _ hmem) (by decide)
    rw [signed]
    split <;> simp_all
  have hiff : n < 0 ↔ m < 0 := by rw [← hsign (k := n), h, hsign]
  by_cases hn : n < 0
  · rw [signed, signed, if_pos hn, if_pos (hiff.mp hn)] at h
    have habs := congrArg (Nat.ofDigitChars 10 · 0) (List.append_cancel_left h)
    simp only [ofDigitChars_field] at habs
    have := hiff.mp hn
    omega
  · have hm : ¬ m < 0 := fun hm => hn (hiff.mpr hm)
    have habs : Nat.ofDigitChars 10 (signed width n) 0 = Nat.ofDigitChars 10 (signed width m) 0 := by rw [h]
    rw [hvalue (by omega), hvalue (by omega)] at habs
    omega

theorem dayOf_lt {a b : Int} (hlt : a < b) : dayOf a < dayOf b ∨ dayOf a = dayOf b ∧ secondOf a < secondOf b := by
  rw [secondOf, secondOf, dayOf_eq, dayOf_eq]
  omega

/-- The hands of a clock are in the order of the seconds. -/
theorem hands_lt {s s' : Int} (hlt : s < s') : s / 3600 < s' / 3600 ∨ s / 3600 = s' / 3600 ∧
    (s / 60 % 60 < s' / 60 % 60 ∨ s / 60 % 60 = s' / 60 % 60 ∧ s % 60 < s' % 60) := by
  omega

/-- A later time has a later year, or later numbers behind the same year. -/
theorem clockOf_lt (hlt : a < b) : yearOf a < yearOf b ∨ yearOf a = yearOf b ∧ clockOf a < clockOf b := by
  have hsecond := secondOf_range a
  have hsecond' := secondOf_range b
  obtain ⟨y, m, d, h, heq⟩ := dateOfDays_dated (dayOf a)
  obtain ⟨y', m', d', h', heq'⟩ := dateOfDays_dated (dayOf b)
  have hmonth := h.monthRange
  have hmonth' := h'.monthRange
  have hday := h.dayRange
  have hday' := h'.dayRange
  simp only [yearOf, clockOf, heq, heq', List.cons_lt_cons_iff, List.not_lt_nil, and_false, or_false]
  rcases dayOf_lt hlt with hdays | ⟨hdays, hseconds⟩
  · rcases h.lt h' hdays with hlater | ⟨rfl, rfl, hlater⟩
    · split <;> split <;> omega
    · omega
  · rw [hdays, heq', Prod.mk.injEq, Prod.mk.injEq] at heq
    obtain ⟨hyear, hmonth, rfl⟩ := heq
    rw [hyear, hmonth]
    rcases hands_lt hseconds with hhour | ⟨hhour, hminute | ⟨hminute, hsecond⟩⟩ <;> omega

theorem eq_of_clockOf (hyear : yearOf a = yearOf b) (hclock : clockOf a = clockOf b) : a = b := by
  have hne : ∀ {c d : Instant}, c < d → ¬ (yearOf c = yearOf d ∧ clockOf c = clockOf d) := by
    rintro c d hlt ⟨hyear, hclock⟩
    rcases clockOf_lt hlt with hlater | ⟨-, hlater⟩
    · omega
    · rw [hclock] at hlater
      exact lt_irrefl _ hlater
  rcases Int.lt_trichotomy a b with hlt | heq | hgt
  · exact absurd ⟨hyear, hclock⟩ (hne hlt)
  · exact heq
  · exact absurd ⟨hyear.symm, hclock.symm⟩ (hne hgt)

theorem written_inj (h : written a = written b) : a = b := by
  have hlength := length_fields (fit_clockOf a) (fit_clockOf b)
  obtain ⟨hyear, hclock⟩ := List.append_inj' h (by rw [List.length_cons, List.length_cons, hlength])
  exact eq_of_clockOf (signed_inj hyear)
    (fields_inj (fit_clockOf a) (fit_clockOf b) (List.cons.inj hclock).2)

theorem before_trichotomy (a b : Instant) : before a b = true ∨ a = b ∨ before b a = true := by
  rw [before_iff_written, before_iff_written]
  rcases lt_trichotomy (written a) (written b) with hlt | heq | hgt
  · exact .inl hlt
  · exact .inr (.inl (written_inj heq))
  · exact .inr (.inr hgt)

theorem before_trans {c : Instant} (hab : before a b = true) (hbc : before b c = true) :
    before a c = true := by
  rw [before_iff_written] at *
  exact lt_trans hab hbc

theorem before_irrefl (a : Instant) : before a a = false := by
  rw [← Bool.not_eq_true, before_iff_written]
  exact lt_irrefl _

/-- The times whose years have four digits. -/
def IsWritten (t : Instant) : Prop := 0 ≤ yearOf t ∧ yearOf t ≤ 9999

/-- A time is written as fields of fixed widths. -/
theorem written_eq_fields {t : Instant} (h : IsWritten t) :
    written t = fields ((4, '-') :: clockForm) ((yearOf t).toNat :: clockOf t) ∧
      Fit ((4, '-') :: clockForm) ((yearOf t).toNat :: clockOf t) := by
  obtain ⟨hlow, hhigh⟩ := h
  refine ⟨?_, by decide, by omega, fit_clockOf t⟩
  rw [written, signed, if_neg (by omega), List.nil_append, show (yearOf t).natAbs = (yearOf t).toNat by omega]
  rfl

/-- In the years of four digits the order of the texts is the order of the times. -/
theorem before_iff_lt (ha : IsWritten a) (hb : IsWritten b) : before a b = true ↔ a < b := by
  have hlater : ∀ {c d : Instant}, IsWritten c → IsWritten d → c < d → before c d = true := by
    intro c d hc hd hlt
    obtain ⟨hcfields, hcfit⟩ := written_eq_fields hc
    obtain ⟨hdfields, hdfit⟩ := written_eq_fields hd
    rw [before_iff_written, hcfields, hdfields, fields_lt_iff hcfit hdfit, List.cons_lt_cons_iff]
    obtain ⟨hclow, -⟩ := hc
    rcases clockOf_lt hlt with hyear | ⟨hyear, hclock⟩
    · exact .inl (by omega)
    · exact .inr ⟨by rw [hyear], hclock⟩
  constructor
  · intro hbefore
    by_contra hnot
    rcases Int.lt_or_eq_of_le (Int.not_lt.mp hnot) with hgt | rfl
    · have hloop := before_trans hbefore (hlater hb ha hgt)
      rw [before_irrefl] at hloop
      cases hloop
    · rw [before_irrefl] at hbefore
      cases hbefore
  · exact hlater ha hb

end Time

end Anadil
