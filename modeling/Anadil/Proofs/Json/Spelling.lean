import Anadil.Json.Printer
import Anadil.Json.Reader
import Anadil.Proofs.Outcome

/-! # Numbers and strings of a document

What is left of a value once it is written (`Json.plain`): a stray byte in a text is seen as U+FFFD, and a
number without a spelling is a zero. A number and a string are read up to their ends, whatever follows
them. -/

namespace Anadil

variable {n t tail lead part rest : Text} {g : Glyph}

/-- A property of values holds if it goes from their items and fields to them. -/
theorem Json.induct {P : Json → Prop} (null : P .null) (bool : ∀ b, P (.bool b))
    (number : ∀ n, P (.number n)) (string : ∀ s, P (.string s))
    (array : ∀ items, (∀ v ∈ items, P v) → P (.array items))
    (object : ∀ fields, (∀ f ∈ fields, P f.2) → P (.object fields)) (v : Json) : P v :=
  @Json.rec P (fun vs => ∀ v ∈ vs, P v) (fun fs => ∀ f ∈ fs, P f.2) (fun f => P f.2)
    null bool number string array object
    (List.forall_mem_nil _) (fun _ _ hd tl => List.forall_mem_cons.mpr ⟨hd, tl⟩)
    (List.forall_mem_nil _) (fun _ _ hd tl => List.forall_mem_cons.mpr ⟨hd, tl⟩)
    (fun _ _ h => h) v

namespace Json

mutual

/-- What is left of a value once it is written. -/
def plain : Json → Json
  | null => null
  | bool b => bool b
  | number n => number (spelled n)
  | string s => string s.clean
  | array items => array (plainItems items)
  | object fields => object (plainFields fields)

/-- `Json.plain` of each value. -/
def plainItems : List Json → List Json
  | [] => []
  | v :: rest => v.plain :: plainItems rest

/-- Fields with clean names and plain values. -/
def plainFields : List (Text × Json) → List (Text × Json)
  | [] => []
  | (n, v) :: rest => (n.clean, v.plain) :: plainFields rest

end

/-! ### Lists of values -/

theorem writtenItems_eq (l : Layout) (d : Nat) (vs : List Json) : writtenItems l d vs = vs.map (written l d) := by
  induction vs with
  | nil => rfl
  | cons v vs ih => rw [writtenItems, ih, List.map_cons]

theorem writtenFields_eq (l : Layout) (d : Nat) (fs : List (Text × Json)) :
    writtenFields l d fs = fs.map fun f => quoted f.1 ++ l.colon ++ f.2.written l d := by
  induction fs with
  | nil => rfl
  | cons f fs ih => rw [writtenFields, ih, List.map_cons]

theorem plainItems_eq (vs : List Json) : plainItems vs = vs.map plain := by
  induction vs with
  | nil => rfl
  | cons v vs ih => rw [plainItems, ih, List.map_cons]

theorem plainFields_eq (fs : List (Text × Json)) :
    plainFields fs = fs.map fun f => (f.1.clean, f.2.plain) := by
  induction fs with
  | nil => rfl
  | cons f fs ih => rw [plainFields, ih, List.map_cons]

theorem firstBadItem_eq_none {vs : List Json} :
    firstBadItem vs = none ↔ ∀ v ∈ vs, v.firstBadNumber = none := by
  induction vs with
  | nil => simp [firstBadItem]
  | cons v vs ih => simp [firstBadItem, ih]

theorem firstBadField_eq_none {fs : List (Text × Json)} :
    firstBadField fs = none ↔ ∀ f ∈ fs, f.2.firstBadNumber = none := by
  induction fs with
  | nil => simp [firstBadField]
  | cons f fs ih => rw [firstBadField, Option.or_eq_none_iff, ih, List.forall_mem_cons]

theorem nestingItems_le {vs : List Json} {n : Nat} : nestingItems vs ≤ n ↔ ∀ v ∈ vs, v.nesting ≤ n := by
  induction vs with
  | nil => simp [nestingItems]
  | cons v vs ih => rw [nestingItems, Nat.max_le, ih, List.forall_mem_cons]

theorem nestingFields_le {fs : List (Text × Json)} {n : Nat} :
    nestingFields fs ≤ n ↔ ∀ f ∈ fs, f.2.nesting ≤ n := by
  induction fs with
  | nil => simp [nestingFields]
  | cons f fs ih => rw [nestingFields, Nat.max_le, ih, List.forall_mem_cons]

/-! ### Numbers -/

/-- A number does not go on into the text. -/
def Stops (t : Text) : Prop :=
  ∀ g ∈ t.head?, isDigit g = false ∧ g.is '.' = false ∧ g.is 'e' = false ∧ g.is 'E' = false

theorem stops_cons :
    Stops (g :: t) ↔ isDigit g = false ∧ g.is '.' = false ∧ g.is 'e' = false ∧ g.is 'E' = false := by
  simp [Stops]

/-- What a reader of a part of a number does: it divides the text, the part has no stray bytes, and what
follows the text and does not go on as a number is left. -/
structure Divides (f : Text → Extent) : Prop where
  parts : ∀ {t part rest}, f t = .reaches part rest → part ++ rest = t
  clean : ∀ {t part rest}, f t = .reaches part rest → part.isClean = true
  append : ∀ {t part rest tail}, f t = .reaches part rest → Stops tail →
    f (t ++ tail) = .reaches part (rest ++ tail)

theorem digits_append (h : Stops tail) : digits (t ++ tail) = ((digits t).1, (digits t).2 ++ tail) := by
  induction t with
  | nil =>
    cases tail with
    | nil => rfl
    | cons g tail => simp [digits, (stops_cons.mp h).1]
  | cons g t ih =>
    simp only [digits, Prod.mk.injEq] at ih
    cases hg : isDigit g <;> simp [digits, hg, ih]

theorem someDigits_eq_reaches : someDigits lead t = .reaches part rest ↔
      (digits t).1 ≠ [] ∧ part = lead ++ (digits t).1 ∧ rest = (digits t).2 := by
  rcases h : digits t with ⟨ds, r⟩
  cases ds with
  | nil => cases r <;> simp [someDigits, h]
  | cons d ds => simp [someDigits, h, eq_comm]

theorem digits_parts (t : Text) : (digits t).1 ++ (digits t).2 = t := List.takeWhile_append_dropWhile

/-- Digits end where something follows that is no digit. -/
theorem someDigits_append (h : someDigits lead t = .reaches part rest)
    (htail : Stops tail) : someDigits lead (t ++ tail) = .reaches part (rest ++ tail) := by
  rw [someDigits_eq_reaches] at h ⊢
  obtain ⟨hne, rfl, rfl⟩ := h
  rw [digits_append htail]
  exact ⟨hne, rfl, rfl⟩

theorem someDigits_parts (h : someDigits lead t = .reaches part rest) : part ++ rest = lead ++ t := by
  obtain ⟨-, rfl, rfl⟩ := someDigits_eq_reaches.mp h
  rw [List.append_assoc, digits_parts]

theorem isClean_append {u : Text} : Text.isClean (t ++ u) = true ↔ t.isClean = true ∧ u.isClean = true := by
  rw [Text.isClean, List.all_append, Bool.and_eq_true]
  rfl

theorem isClean_of_is {c : Char} (h : g.is c = true) : Text.isClean [g] = true := by
  cases g with
  | char d => rfl
  | byte b => cases h

theorem someDigits_clean (h : someDigits lead t = .reaches part rest)
    (hlead : lead.isClean = true) : part.isClean = true := by
  obtain ⟨-, rfl, -⟩ := someDigits_eq_reaches.mp h
  refine isClean_append.mpr ⟨hlead, List.all_eq_true.mpr fun g hg => ?_⟩
  have hdigit : isDigit g = true := List.all_eq_true.mp List.all_takeWhile g hg
  cases g with
  | char c => rfl
  | byte b => cases hdigit

theorem divides_wholePart : Divides wholePart where
  clean {t part rest} h := by
    cases t with
    | nil => cases h
    | cons g t =>
      rw [wholePart] at h
      split at h
      · cases h
        exact isClean_of_is ‹_›
      · exact someDigits_clean h rfl
  parts {t part rest} h := by
    cases t with
    | nil => cases h
    | cons g t =>
      rw [wholePart] at h
      split at h
      · cases h
        rfl
      · exact someDigits_parts h
  append {t part rest tail} h htail := by
    cases t with
    | nil => cases h
    | cons g t =>
      rw [List.cons_append, wholePart]
      rw [wholePart] at h
      split at h
      · cases h
        rw [if_pos ‹_›]
      · rw [if_neg ‹_›]
        exact someDigits_append h htail

theorem divides_fractionPart : Divides fractionPart where
  clean {t part rest} h := by
    cases t with
    | nil =>
      cases h
      rfl
    | cons g t =>
      rw [fractionPart] at h
      split at h
      · exact someDigits_clean h (isClean_of_is ‹_›)
      · cases h
        rfl
  parts {t part rest} h := by
    cases t with
    | nil =>
      cases h
      rfl
    | cons g t =>
      rw [fractionPart] at h
      split at h
      · exact someDigits_parts h
      · cases h
        rfl
  append {t part rest tail} h htail := by
    cases t with
    | nil =>
      cases h
      cases tail with
      | nil => rfl
      | cons g tail => simp [fractionPart, (stops_cons.mp htail).2.1]
    | cons g t =>
      rw [List.cons_append, fractionPart]
      rw [fractionPart] at h
      split at h
      · rw [if_pos ‹_›]
        exact someDigits_append h htail
      · cases h
        rw [if_neg ‹_›, List.cons_append]

theorem exponentPart_absent (h : ¬ (g.is 'e' || g.is 'E') = true) (t : Text) :
    exponentPart (g :: t) = .reaches [] (g :: t) := by
  unfold exponentPart
  exact if_neg h

theorem divides_exponentPart : Divides exponentPart where
  clean {t part rest} h := by
    rcases t with _ | ⟨g, t⟩
    · cases h
      rfl
    by_cases hg : (g.is 'e' || g.is 'E') = true
    · have hclean : Text.isClean [g] = true := (Bool.or_eq_true_iff.mp hg).elim isClean_of_is isClean_of_is
      rcases t with _ | ⟨s, t⟩
      · simp [exponentPart, hg] at h
      · simp only [exponentPart, if_pos hg] at h
        split at h
        · rename_i hs
          have hsign : Text.isClean [s] = true := (Bool.or_eq_true_iff.mp hs).elim isClean_of_is isClean_of_is
          exact someDigits_clean h (isClean_append.mpr ⟨hclean, hsign⟩ : Text.isClean ([g] ++ [s]) = true)
        · exact someDigits_clean h hclean
    · rw [exponentPart_absent hg] at h
      cases h
      rfl
  parts {t part rest} h := by
    rcases t with _ | ⟨g, t⟩
    · cases h
      rfl
    by_cases hg : (g.is 'e' || g.is 'E') = true
    · rcases t with _ | ⟨s, t⟩
      · simp [exponentPart, hg] at h
      · simp only [exponentPart, if_pos hg] at h
        split at h <;> exact someDigits_parts h
    · rw [exponentPart_absent hg] at h
      cases h
      rfl
  append {t part rest tail} h htail := by
    rcases t with _ | ⟨g, t⟩
    · cases h
      cases tail with
      | nil => rfl
      | cons g tail => exact exponentPart_absent (by simp [(stops_cons.mp htail).2.2]) tail
    by_cases hg : (g.is 'e' || g.is 'E') = true
    · rcases t with _ | ⟨s, t⟩
      · simp [exponentPart, hg] at h
      · simp only [exponentPart, List.cons_append, if_pos hg] at h ⊢
        split at h
        · rw [if_pos ‹_›]
          exact someDigits_append h htail
        · rw [if_neg ‹_›]
          exact someDigits_append h htail
    · rw [exponentPart_absent hg] at h
      cases h
      exact exponentPart_absent hg _

theorem andThen_eq_reaches {e : Extent} {f : Text → Extent} : e.andThen f = .reaches part rest ↔
      ∃ p r more, e = .reaches p r ∧ f r = .reaches more rest ∧ part = p ++ more := by
  constructor
  · intro h
    unfold Extent.andThen at h
    split at h
    · split at h
      · cases h
        exact ⟨_, _, _, rfl, ‹_›, rfl⟩
      · cases h
      · cases h
    · cases h
    · cases h
  · rintro ⟨p, r, more, rfl, h, rfl⟩
    simp only [Extent.andThen, h]

theorem Divides.andThen {f g : Text → Extent} (hf : Divides f) (hg : Divides g) :
    Divides fun t => (f t).andThen g where
  clean h := by
    obtain ⟨p, r, more, h₁, h₂, rfl⟩ := andThen_eq_reaches.mp h
    exact isClean_append.mpr ⟨hf.clean h₁, hg.clean h₂⟩
  parts h := by
    obtain ⟨p, r, more, h₁, h₂, rfl⟩ := andThen_eq_reaches.mp h
    rw [List.append_assoc, hg.parts h₂, hf.parts h₁]
  append h htail := by
    obtain ⟨p, r, more, h₁, h₂, rfl⟩ := andThen_eq_reaches.mp h
    exact andThen_eq_reaches.mpr ⟨p, _, more, hf.append h₁ htail, hg.append h₂ htail, rfl⟩

theorem divides_unsigned :
    Divides fun t => ((wholePart t).andThen fractionPart).andThen exponentPart :=
  (divides_wholePart.andThen divides_fractionPart).andThen divides_exponentPart

theorem divides_numberExtent : Divides numberExtent where
  clean {t part rest} h := by
    cases t with
    | nil => cases h
    | cons g t =>
      rw [numberExtent] at h
      dsimp only at h
      split at h
      · obtain ⟨p, r, more, h₁, h₂, rfl⟩ := andThen_eq_reaches.mp h
        cases h₁
        exact isClean_append.mpr ⟨isClean_of_is ‹_›, divides_unsigned.clean h₂⟩
      · exact divides_unsigned.clean h
  parts {t part rest} h := by
    cases t with
    | nil => cases h
    | cons g t =>
      rw [numberExtent] at h
      dsimp only at h
      split at h
      · obtain ⟨p, r, more, h₁, h₂, rfl⟩ := andThen_eq_reaches.mp h
        cases h₁
        rw [List.append_assoc, divides_unsigned.parts h₂]
        rfl
      · exact divides_unsigned.parts h
  append {t part rest tail} h htail := by
    cases t with
    | nil => cases h
    | cons g t =>
      rw [List.cons_append, numberExtent]
      rw [numberExtent] at h
      dsimp only at h ⊢
      split at h
      · rw [if_pos ‹_›]
        obtain ⟨p, r, more, h₁, h₂, rfl⟩ := andThen_eq_reaches.mp h
        cases h₁
        exact andThen_eq_reaches.mpr ⟨_, _, more, rfl, divides_unsigned.append h₂ htail, rfl⟩
      · rw [if_neg ‹_›]
        exact divides_unsigned.append h htail

theorem numberExtent_of_isNumber (h : isNumber n = true) : numberExtent n = .reaches n [] := by
  unfold isNumber at h
  split at h
  · rename_i part rest hn
    obtain rfl := List.isEmpty_iff.mp h
    obtain rfl := divides_numberExtent.parts hn
    rwa [List.append_nil] at hn ⊢
  · cases h

theorem numberExtent_append (h : isNumber n = true) (htail : Stops tail) :
    numberExtent (n ++ tail) = .reaches n tail :=
  divides_numberExtent.append (numberExtent_of_isNumber h) htail

theorem isClean_of_isNumber (h : isNumber n = true) : n.isClean = true :=
  divides_numberExtent.clean (numberExtent_of_isNumber h)

theorem isNumber_spelled (h : (number n).firstBadNumber = none) : isNumber (spelled n) = true := by
  by_cases hn : n.isEmpty = true
  · rw [spelled, if_pos hn]
    decide
  · rw [spelled, if_neg hn]
    simpa [firstBadNumber, hn] using h

theorem head_of_isNumber (h : isNumber n = true) :
    ∃ c t, n = .char c :: t ∧ (c = '-' ∨ c.isDigit = true) := by
  -- what starts with neither has no whole part
  have hbroken : ∀ {g : Glyph} {t : Text}, isDigit g = false → g.is '-' = false → g.is '0' = false →
      isNumber (g :: t) = false := by
    intro g t hdigit hminus hzero
    have hdigits : digits (g :: t) = ([], g :: t) := by simp [digits, hdigit]
    simp [isNumber, numberExtent, hminus, wholePart, hzero, someDigits, hdigits, Extent.andThen]
  rcases n with _ | ⟨c | b, t⟩
  · cases h
  · refine ⟨c, t, rfl, ?_⟩
    by_cases hminus : c = '-'
    · exact .inl hminus
    refine .inr ?_
    cases hdigit : c.isDigit with
    | true => rfl
    | false =>
      have hzero : '0' ≠ c := by
        rintro rfl
        cases hdigit
      rw [hbroken (g := .char c) hdigit (beq_eq_false_iff_ne.mpr (Ne.symm hminus))
        (beq_eq_false_iff_ne.mpr hzero)] at h
      cases h
  · rw [hbroken (g := .byte b) rfl rfl rfl] at h
    cases h

/-! ### Strings -/

theorem map_eq_ok {ε α β : Type} {x : Except ε α} {f : α → β} {b : β} :
    x.map f = .ok b ↔ ∃ a, x = .ok a ∧ f a = b := by
  cases x <;> simp [Except.map]

theorem readString_eq_ok {s r : Text} :
    readString t = .ok (s, r) ↔ ∃ ps, stringParts .none t = .ok (ps, r) ∧ joinParts ps = s := by
  rw [readString, map_eq_ok]
  constructor
  · rintro ⟨⟨ps, r⟩, h, heq⟩
    cases heq
    exact ⟨ps, h, rfl⟩
  · rintro ⟨ps, h, rfl⟩
    exact ⟨_, h, rfl⟩

/-- Sixteen bits that are no half of a pair are the character of that number. -/
theorem joinParts_unit {n : Nat} (hhigh : isHigh n = false) (hlow : isLow n = false) (ps : List Part) :
    joinParts (.unit n :: ps) = .char (Char.ofNat n) :: joinParts ps := by
  rcases ps with _ | ⟨c | b, ps⟩ <;> simp [joinParts, hhigh, hlow]

/-- The characters that are written by their number. -/
def numbered : List Nat := List.range 0x20 ++ [0x2028, 0x2029]

theorem mem_numbered {c : Char} (h : c.toNat < 0x20 ∨ c = '\u2028' ∨ c = '\u2029') : c.toNat ∈ numbered := by
  rcases h with hlow | rfl | rfl
  · exact List.mem_append_left _ (List.mem_range.mpr hlow)
  · decide
  · decide

theorem hex_numbered : ∀ n ∈ numbered,
    (Text.hex 4 n).map (fun g => hexValue? g.seen) =
        [some (n / 4096), some (n / 256 % 16), some (n / 16 % 16), some (n % 16)] ∧
      isHigh n = false ∧ isLow n = false := by
  decide

/-- A character that is written as a number is read as that number. -/
theorem stringParts_hex {n : Nat} (h : n ∈ numbered) (t : Text) :
    stringParts (.digits 4 0) (Text.hex 4 n ++ t) =
      (stringParts .none t).map fun (ps, r) => (.unit n :: ps, r) := by
  obtain ⟨hhex, -⟩ := hex_numbered n h
  obtain ⟨a, as, hn, ha, hhex⟩ := List.map_eq_cons_iff.mp hhex
  obtain ⟨b, bs, rfl, hb, hhex⟩ := List.map_eq_cons_iff.mp hhex
  obtain ⟨c, cs, rfl, hc, hhex⟩ := List.map_eq_cons_iff.mp hhex
  obtain ⟨d, ds, rfl, hd, hhex⟩ := List.map_eq_cons_iff.mp hhex
  obtain rfl := List.map_eq_nil_iff.mp hhex
  have hvalue : (((0 * 16 + n / 4096) * 16 + n / 256 % 16) * 16 + n / 16 % 16) * 16 + n % 16 = n := by omega
  rw [hn]
  simp only [List.cons_append, List.nil_append, stringParts, ha, hb, hc, hd, hvalue]
  rfl

theorem readString_escapedChar {s r : Text} (c : Char) (h : readString t = .ok (s, r)) :
    readString (escapedChar c ++ t) = .ok (.char c :: s, r) := by
  obtain ⟨ps, hps, rfl⟩ := readString_eq_ok.mp h
  unfold escapedChar
  split
  iterate 7
    refine readString_eq_ok.mpr ⟨.char _ :: ps, ?_, rfl⟩
    change (stringParts .none t).map _ = _
    rw [hps]
    rfl
  split
  · rename_i hnumber
    have hmem := mem_numbered hnumber
    obtain ⟨-, hhigh, hlow⟩ := hex_numbered _ hmem
    refine readString_eq_ok.mpr ⟨.unit c.toNat :: ps, ?_, ?_⟩
    · change stringParts (.digits 4 0) (Text.hex 4 c.toNat ++ t) = _
      rw [stringParts_hex hmem, hps]
      rfl
    · rw [joinParts_unit hhigh hlow, Char.ofNat_toNat]
  · rename_i hquote hbackslash _ _ _ _ _ hnumber
    refine readString_eq_ok.mpr ⟨.char c :: ps, ?_, rfl⟩
    have hplain : ¬ c.toNat < 0x20 := fun h => hnumber (.inl h)
    simp [stringParts, Glyph.is, Glyph.seen, Ne.symm hquote, Ne.symm hbackslash, hplain, hps, Except.map]

theorem quoted_append (s r : Text) :
    quoted s ++ r = .char '"' :: (s.flatMap (fun g => escapedChar g.seen) ++ .char '"' :: r) := by
  simp [quoted]

theorem readString_quoted (s r : Text) :
    readString (s.flatMap (fun g => escapedChar g.seen) ++ .char '"' :: r) = .ok (s.clean, r) := by
  induction s with
  | nil => rfl
  | cons g s ih =>
    rw [List.flatMap_cons, List.append_assoc]
    exact readString_escapedChar g.seen ih

end Json

end Anadil
