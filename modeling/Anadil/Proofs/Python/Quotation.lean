import Anadil.Proofs.Json.Difference
import Anadil.Proofs.Python.Scanning

/-! # String literals

A text is written as one string literal and no more: a reader stops at the last quotation mark, with the text as
the content, whatever stands behind. No escape goes on into what is written behind it (`content_escapedChar`,
`isSealed_escapedChar`). -/

namespace Anadil.Python

/-- Whether every quotation mark of a text stands behind a backslash of its own, and every backslash in front of
something. -/
def isSealed : Text → Bool
  | [] => true
  | [.char '\\'] => false
  | .char '\\' :: _ :: t => isSealed t
  | g :: t => g != .char '"' && isSealed t

/-- A control character of ASCII. -/
def isControl (c : Char) : Bool := c.toNat < 0x20 || c.toNat == 0x7f

/-- Bytes are one string literal with this content, whatever stands behind them. -/
def IsLiteral (bytes : List UInt8) (value : Text) : Prop :=
  ∃ body : Text, Text.ofBytes bytes = body.inQuotes ∧ isSealed body = true ∧
    (body.all fun g => !isControl g.seen) = true ∧
    ∀ behind, content (body ++ .char '"' :: behind) = some (value, behind)

/-! ### Single characters -/

theorem isSealed_cons {c : Char} (hquote : c ≠ '"') (hbackslash : c ≠ '\\') (t : Text) :
    isSealed (.char c :: t) = isSealed t := by
  rw [isSealed.eq_4 _ _ (fun h _ => hbackslash (Glyph.char.inj h)) fun _ _ h _ => hbackslash (Glyph.char.inj h)]
  simp [hquote]

theorem ne_of_hexValue? {c : Char} {n : Nat} (h : hexValue? c = some n) :
    c ≠ '"' ∧ c ≠ '\\' ∧ isControl c = false := by
  refine ⟨?_, ?_, ?_⟩
  · rintro rfl
    cases h
  · rintro rfl
    cases h
  · have hrange : 48 ≤ c.toNat ∧ c.toNat ≤ 102 := by
      simp only [hexValue?, Char.le_def, UInt32.le_iff_toNat_le] at h
      split at h
      · rename_i hdigit
        exact ⟨hdigit.1, hdigit.2.trans (by decide)⟩
      · split at h
        · rename_i hletter
          exact ⟨le_trans (by decide) hletter.1, hletter.2⟩
        · cases h
    simp only [isControl, Bool.or_eq_false_iff, decide_eq_false_iff_not, beq_eq_false_iff_ne]
    omega

/-- A character in a string is escaped by a letter or by a number, or it stands for itself. -/
theorem escapedChar_cases (c : Char) :
    (∃ e, escapedChar c = [.char '\\', .char e] ∧ isControl e = false) ∨
      (∃ a b, escapedChar c = [.char '\\', .char 'x', .char a, .char b] ∧ hexChar? a b = some c) ∨
      escapedChar c = [.char c] ∧ c ≠ '"' ∧ c ≠ '\\' ∧ isControl c = false := by
  unfold escapedChar
  split
  · exact .inl ⟨'\\', rfl, rfl⟩
  · exact .inl ⟨'"', rfl, rfl⟩
  · exact .inl ⟨'n', rfl, rfl⟩
  · exact .inl ⟨'r', rfl, rfl⟩
  · exact .inl ⟨'t', rfl, rfl⟩
  · rename_i hbackslash hquote _ _ _
    split
    · rename_i hcontrol
      obtain ⟨a, b, hhex, hchar⟩ := hex_control hcontrol
      exact .inr (.inl ⟨a, b, by rw [hhex]; rfl, hchar⟩)
    · rename_i hcontrol
      exact .inr (.inr ⟨rfl, hquote, hbackslash, by simpa [isControl] using hcontrol⟩)

theorem ne_of_hexChar? {a b c : Char} (h : hexChar? a b = some c) :
    ∀ d ∈ [a, b], d ≠ '"' ∧ d ≠ '\\' ∧ isControl d = false := by
  simp only [hexChar?, Option.bind_eq_bind, Option.bind_eq_some_iff] at h
  obtain ⟨high, ha, low, hb, -⟩ := h
  simp [ne_of_hexValue? ha, ne_of_hexValue? hb]

theorem isSealed_escapedChar (c : Char) (t : Text) : isSealed (escapedChar c ++ t) = isSealed t := by
  rcases escapedChar_cases c with ⟨e, he, -⟩ | ⟨a, b, hab, hchar⟩ | ⟨hc, hquote, hbackslash, -⟩
  · rw [he]
    rfl
  · have hdigits := ne_of_hexChar? hchar
    simp only [List.forall_mem_cons] at hdigits
    obtain ⟨⟨haquote, habackslash, -⟩, ⟨hbquote, hbbackslash, -⟩, -⟩ := hdigits
    rw [hab]
    exact (isSealed_cons haquote habackslash _).trans (isSealed_cons hbquote hbbackslash t)
  · rw [hc]
    exact isSealed_cons hquote hbackslash t

theorem plain_escapedChar (c : Char) : ∀ g ∈ escapedChar c, ∃ d, g = .char d ∧ isControl d = false := by
  have hbackslash : isControl '\\' = false := rfl
  have hx : isControl 'x' = false := rfl
  rcases escapedChar_cases c with ⟨e, he, hplain⟩ | ⟨a, b, hab, hchar⟩ | ⟨hc, -, -, hplain⟩
  · simp [he, hplain, hbackslash]
  · have hdigits := ne_of_hexChar? hchar
    simp only [List.forall_mem_cons] at hdigits
    simp [hab, hdigits, hbackslash, hx]
  · simp [hc, hplain]

/-! ### Texts -/

/-- What stands between the quotation marks of a literal. -/
def body (t : Text) : Text := t.flatMap fun g => escapedChar g.seen

theorem isSealed_body (t : Text) : isSealed (body t) = true := by
  induction t with
  | nil => rfl
  | cons g t ih => exact (isSealed_escapedChar g.seen (body t)).trans ih

theorem plain_body (t : Text) : ∀ g ∈ body t, ∃ d, g = .char d ∧ isControl d = false := by
  intro g hg
  obtain ⟨h, -, hgh⟩ := List.mem_flatMap.mp hg
  exact plain_escapedChar h.seen g hgh

theorem content_body (t behind : Text) : content (body t ++ .char '"' :: behind) = some (t.clean, behind) := by
  have hclean : body t = body t.clean := by simp [body, Text.clean, List.flatMap_map, Glyph.seen]
  rw [hclean]
  exact content_escaped (Text.isClean_clean t) behind

theorem isClean_string (t : Text) : (string t).isClean = true := by
  refine List.all_eq_true.mpr fun g hg => ?_
  have hbody : g = .char '"' ∨ g ∈ body t := by simpa [string, body, or_comm] using hg
  rcases hbody with rfl | hbody
  · rfl
  · obtain ⟨d, rfl, -⟩ := plain_body t g hbody
    rfl

theorem isLiteral_string (t : Text) : IsLiteral (string t).bytes t.clean := by
  refine ⟨body t, Text.ofBytes_of_isClean (isClean_string t), isSealed_body t, ?_, content_body t⟩
  refine List.all_eq_true.mpr fun g hg => ?_
  obtain ⟨d, rfl, hplain⟩ := plain_body t g hg
  simp [Glyph.seen, hplain]

/-- Bytes are written as one string literal, whose content they are with every stray byte seen as U+FFFD. The
characters of a string come back as they are. -/
theorem string_readBack :
    (∀ bytes : List UInt8, IsLiteral (string (Text.ofBytes bytes)).bytes (Text.ofBytes bytes).clean) ∧
      ∀ s : String, IsLiteral (string (Text.ofBytes (Text.bytes s))).bytes s := by
  refine ⟨fun bytes => isLiteral_string _, fun s => ?_⟩
  have hclean : Text.isClean s = true := Text.isClean_iff.mpr ⟨s.toList, rfl⟩
  have hliteral := isLiteral_string s
  rw [Text.clean_of_isClean hclean] at hliteral
  rwa [Text.ofBytes_of_isClean hclean]

example : string "7\x07\"\\" = "\"7\\x07\\\"\\\\\"" := by decide

end Anadil.Python
