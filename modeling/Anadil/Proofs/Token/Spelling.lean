import Anadil.Proofs.Token.Division

/-! # How names and numbers are spelled

The texts of the tokens of a source: a name in normal form is still a name, and a number is digits, with
digits behind a point if it has one. -/

namespace Anadil

variable {cells : List Cell} {kind : Kind} {place : Place}

/-- A name: characters that may stand in names, and a first one that may start them. -/
def Text.IsName (t : Text) : Prop :=
  ∃ (d : Char) (ds : List Char), t = (d :: ds).map .char ∧ Text.isStartPoint d.toNat = true ∧
    ∀ e ∈ ds, Text.isWordPoint e.toNat = true

/-- Digits, at least one. -/
def Text.IsDigits (t : Text) : Prop :=
  ∃ ds : List Char, ds ≠ [] ∧ t = ds.map .char ∧ ∀ d ∈ ds, d.isDigit = true

/-- A number: digits, or digits on both sides of a point. -/
def Text.IsNumeral (t : Text) : Prop :=
  t.IsDigits ∨ ∃ whole fraction : Text, whole.IsDigits ∧ fraction.IsDigits ∧
    t = whole ++ .char '.' :: fraction

/-- Names and numbers are spelled as such. -/
structure Token.Spelled (t : Token) : Prop where
  name : t.kind = .identifier → t.text.IsName
  stable : t.kind = .identifier → Text.hasCompatibility t.text.chars = false
  numeral : t.kind = .number → t.text.IsNumeral

namespace Lexer

/-! ### Characters -/

theorem foldedSigns_not_parts :
    Text.foldedSigns.all (fun n => !(isNamePart (Char.ofNat n))) = true := by decide +kernel

theorem not_folded {c : Char} (h : isNamePart c = true) : c.toNat ∉ Text.foldedSigns := by
  intro hmem
  have hpart := List.all_eq_true.mp foldedSigns_not_parts _ hmem
  rw [Char.ofNat_toNat, h] at hpart
  cases hpart

theorem isStartPoint_beyond {c : Char} (h : 0x80 ≤ c.toNat) : Text.isStartPoint c.toNat = true := by
  have hvalid : c.toNat.isValidChar := c.valid
  simp only [Nat.isValidChar] at hvalid
  simp only [Text.isStartPoint, Bool.or_eq_true, Bool.and_eq_true, decide_eq_true_eq, beq_iff_eq]
  omega

theorem isSafe_of_isNameStart {c : Char} (h : isNameStart c = true) : Text.isSafe c.toNat = true := by
  by_cases hascii : c.toNat < 0x80
  · have hp := @ascii_all (fun c => !isNameStart c || Text.isSafe c.toNat) (by decide +kernel) c hascii
    simpa [h] using hp
  · simp [Text.isSafe, isStartPoint_beyond (Nat.le_of_not_lt hascii),
      not_folded (isNamePart_of_isNameStart h)]

theorem isNamePoint_of_isNamePart {c : Char} (h : isNamePart c = true) :
    Text.isNamePoint c.toNat = true := by
  by_cases hascii : c.toNat < 0x80
  · have hp := @ascii_all (fun c => !isNamePart c || Text.isNamePoint c.toNat) (by decide +kernel) c hascii
    simpa [h] using hp
  · simp [Text.isNamePoint, Text.isSafe, isStartPoint_beyond (Nat.le_of_not_lt hascii), not_folded h]

/-! ### Cells -/

end Lexer

theorem Cell.join_cons (c : Cell) (cells : List Cell) : Cell.join (c :: cells) = c.text ++ Cell.join cells :=
  rfl

theorem Cell.join_append (cells cells' : List Cell) :
    Cell.join (cells ++ cells') = Cell.join cells ++ Cell.join cells' := by
  simp [Cell.join]

namespace Lexer

/-- A cell that is read as a character other than a line feed or a stray byte is that character. -/
theorem text_of_seen {c : Cell} {d : Char} (h : c.seen = d) (hd : d ≠ '\n' ∧ d ≠ Glyph.replacement) :
    c.text = [.char d] := by
  match c with
  | .glyph (.char _) => exact congrArg (fun d => [Glyph.char d]) h
  | .glyph (.byte _) => exact absurd h.symm hd.2
  | .crlf => exact absurd h.symm hd.1

theorem chars_join (h : ∀ c ∈ cells, c.seen ≠ '\n') : (Cell.join cells).chars = cells.map Cell.seen := by
  induction cells with
  | nil => rfl
  | cons c cells ih =>
    obtain ⟨hc, hcells⟩ := List.forall_mem_cons.mp h
    have hone : c.text.chars = [c.seen] := by
      match c with
      | .glyph _ => rfl
      | .crlf => exact absurd rfl hc
    rw [Text.chars] at hone ih ⊢
    rw [Cell.join_cons, List.map_append, hone, ih hcells]
    rfl

theorem join_eq (h : ∀ c ∈ cells, c.seen ≠ '\n' ∧ c.seen ≠ Glyph.replacement) :
    Cell.join cells = (cells.map Cell.seen).map .char := by
  induction cells with
  | nil => rfl
  | cons c cells ih =>
    obtain ⟨hc, hcells⟩ := List.forall_mem_cons.mp h
    rw [Cell.join_cons, text_of_seen rfl hc, ih hcells]
    rfl

/-! ### Pieces -/

theorem isDigits_join {c : Cell} (hc : isDigit c.seen = true) (h : ∀ d ∈ cells, isDigit d.seen = true) :
    (Cell.join (c :: cells)).IsDigits := by
  have hdigits : ∀ d ∈ c :: cells, isDigit d.seen = true := List.forall_mem_cons.mpr ⟨hc, h⟩
  refine ⟨(c :: cells).map Cell.seen, by simp, join_eq fun d hd => ?_, fun e he => ?_⟩
  · exact ⟨seen_ne_of (by decide) (hdigits d hd), seen_ne_of (by decide) (hdigits d hd)⟩
  · obtain ⟨d, hd, rfl⟩ := List.mem_map.mp he
    exact hdigits d hd

/-- The cells of a number are digits, or digits on both sides of a point. -/
theorem Shape.isNumeral (h : Shape .number cells) : (Cell.join cells).IsNumeral := by
  cases h with
  | whole hc hcs => exact .inl (isDigits_join hc hcs)
  | @fraction c point digit cs ds hc hcs hpoint hdigit hds =>
    refine .inr ⟨_, _, isDigits_join hc hcs, isDigits_join hdigit hds, ?_⟩
    rw [← List.cons_append, Cell.join_append, Cell.join_cons point, text_of_seen hpoint (by decide)]
    rfl
  | double h => exact (double?_ne h (by decide)).elim
  | single h => exact (single?_ne h (by decide)).elim

/-- The normal form of a name is a name. -/
theorem Shape.isName (h : Shape .identifier cells) :
    Text.IsName ((Text.normalize (Cell.join cells).chars).map .char) := by
  obtain ⟨c, cs, rfl, hc, hcs⟩ := h.of_identifier
  have hparts : ∀ d ∈ c :: cs, isNamePart d.seen = true :=
    List.forall_mem_cons.mpr ⟨isNamePart_of_isNameStart hc, hcs⟩
  have hline : ∀ d ∈ c :: cs, d.seen ≠ '\n' := fun d hd => seen_ne_of (by decide) (hparts d hd)
  obtain ⟨d, ds, heq, hd, hds⟩ := @Text.normalize_word c.seen (cs.map Cell.seen) (isSafe_of_isNameStart hc) (by
    intro e he
    obtain ⟨d, hd, rfl⟩ := List.mem_map.mp he
    exact isNamePoint_of_isNamePart (hcs d hd))
  refine ⟨d, ds, ?_, hd, hds⟩
  rw [chars_join hline, List.map_cons, heq]

theorem finish_spelled {trivia : List Lexeme} {t : Token} (hshape : Shape kind cells)
    (h : finish (lexeme kind place cells) trivia = .ok t) : t.Spelled := by
  unfold finish at h
  split at h
  · rename_i hkind
    obtain rfl : kind = .identifier := hkind
    dsimp only at h
    split at h
    · cases h
    · rename_i hstable
      cases h
      refine ⟨fun _ => hshape.isName, fun _ => ?_, fun hk => absurd hk (ofName_ne (by decide) (by decide) _)⟩
      simpa [Text.chars, Function.comp_def, Glyph.seen] using hstable
  · rename_i hkind
    cases h
    obtain rfl : kind = .string := hkind
    exact ⟨nofun, nofun, nofun⟩
  · rename_i hidentifier _
    cases h
    refine ⟨fun hk => absurd hk hidentifier, fun hk => absurd hk hidentifier, fun hk => ?_⟩
    obtain rfl : kind = .number := hk
    exact hshape.isNumeral

end Lexer

/-- The names and the numbers of a source are spelled as such. -/
theorem tokenize_spelled {source : Text} {tokens : List Token} (h : tokenize source = .ok tokens) :
    ∀ t ∈ tokens, t.Spelled := by
  intro t ht
  by_cases hkind : t.kind = .endOfInput
  · exact ⟨by simp [hkind], by simp [hkind], by simp [hkind]⟩
  · obtain ⟨passed, kind, front, rest, trivia, -, piece, -, finished⟩ :=
      (tokenize_eq_ok_iff.mp h).made t ht hkind
    exact Lexer.finish_spelled piece.shape finished

end Anadil
