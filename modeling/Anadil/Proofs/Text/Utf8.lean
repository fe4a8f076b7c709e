import Anadil.Text.Glyph

/-! # Texts and their bytes

Reading bytes loses nothing: the bytes of what is read are those that were read. Where a stretch of
bytes does not start in the middle of a character, it is read alone as it is read behind others. -/

namespace Anadil

variable {b a : UInt8} {v : Nat} {rest y : List UInt8} {c : Char} {t u : Text}

theorem Glyph.length_bytes (g : Glyph) : g.bytes.length = g.width := by
  cases g with
  | char c => exact String.length_utf8EncodeChar c
  | byte b => rfl

theorem Glyph.width_pos (g : Glyph) : 0 < g.width := by
  cases g with
  | char c => exact Char.utf8Size_pos c
  | byte b => exact Nat.one_pos

namespace Text

/-! ### One character -/

theorem toNat_ofNat {n : Nat} (h : n.isValidChar) : (Char.ofNat n).val.toNat = n := by
  unfold Char.ofNat
  rw [dif_pos h]
  rfl

theorem isTail_iff : isTail b = true ↔ 0x80 ≤ b.toNat ∧ b.toNat ≤ 0xBF := by
  simp only [isTail, Bool.and_eq_true, decide_eq_true_eq, UInt8.le_iff_toNat_le]
  rfl

theorem ofNat_eq {n : Nat} (h : n = b.toNat) : UInt8.ofNat n = b := by
  rw [h, UInt8.ofNat_toNat]

theorem encode_one (ha : a.toNat < 0x80) : String.utf8EncodeChar (Char.ofNat a.toNat) = [a] := by
  have hv : a.toNat.isValidChar := .inl (by omega)
  simp only [String.utf8EncodeChar, toNat_ofNat hv]
  rw [if_pos (by omega), ofNat_eq rfl]

theorem encode_two (hv : v = (a.toNat - 0xC0) * 64 + tailBits b)
    (ha : 0xC2 ≤ a.toNat ∧ a.toNat < 0xE0) (hb : isTail b = true) :
    String.utf8EncodeChar (Char.ofNat v) = [a, b] := by
  rw [isTail_iff] at hb
  unfold tailBits at hv
  have hvalid : v.isValidChar := .inl (by omega)
  simp only [String.utf8EncodeChar, toNat_ofNat hvalid]
  rw [if_neg (by omega), if_pos (by omega), @ofNat_eq a _ (by omega), @ofNat_eq b _ (by omega)]

theorem encode_three {c : UInt8} (hv : v = ((a.toNat - 0xE0) * 64 + tailBits b) * 64 + tailBits c)
    (ha : 0xE0 ≤ a.toNat ∧ a.toNat < 0xF0) (hb : isTail b = true) (hc : isTail c = true)
    (hleast : 0x800 ≤ v) (hpair : ¬ (0xD800 ≤ v ∧ v < 0xE000)) :
    String.utf8EncodeChar (Char.ofNat v) = [a, b, c] := by
  rw [isTail_iff] at hb hc
  unfold tailBits at hv
  have hvalid : v.isValidChar := by
    simp only [Nat.isValidChar]
    omega
  simp only [String.utf8EncodeChar, toNat_ofNat hvalid]
  rw [if_neg (by omega), if_neg (by omega), if_pos (by omega), @ofNat_eq a _ (by omega),
    @ofNat_eq b _ (by omega), @ofNat_eq c _ (by omega)]

theorem encode_four {c d : UInt8}
    (hv : v = (((a.toNat - 0xF0) * 64 + tailBits b) * 64 + tailBits c) * 64 + tailBits d)
    (ha : 0xF0 ≤ a.toNat ∧ a.toNat < 0xF5) (hb : isTail b = true) (hc : isTail c = true)
    (hd : isTail d = true) (hleast : 0x10000 ≤ v) (hmost : v < 0x110000) :
    String.utf8EncodeChar (Char.ofNat v) = [a, b, c, d] := by
  rw [isTail_iff] at hb hc hd
  unfold tailBits at hv
  have hvalid : v.isValidChar := .inr ⟨by omega, hmost⟩
  simp only [String.utf8EncodeChar, toNat_ofNat hvalid]
  rw [if_neg (by omega), if_neg (by omega), if_neg (by omega), @ofNat_eq a _ (by omega),
    @ofNat_eq b _ (by omega), @ofNat_eq c _ (by omega), @ofNat_eq d _ (by omega)]

/-- What is read as a character is what writes it: a first byte, and tail bytes behind it. -/
theorem charAt?_eq_some {n : Nat} (h : charAt? a rest = some (c, n)) :
    ∃ tail more, rest = tail ++ more ∧ tail.length = n ∧ String.utf8EncodeChar c = a :: tail := by
  unfold charAt? at h
  dsimp only at h
  split at h
  · obtain ⟨rfl, rfl⟩ := Prod.mk.inj (Option.some.inj h)
    exact ⟨[], rest, rfl, rfl, encode_one ‹_›⟩
  split at h
  · cases h
  split at h
  · split at h
    · rename_i b more
      split at h
      · obtain ⟨rfl, rfl⟩ := Prod.mk.inj (Option.some.inj h)
        exact ⟨[b], more, rfl, rfl, encode_two rfl (by omega) ‹_›⟩
      · cases h
    · cases h
  split at h
  · split at h
    · rename_i b c' more
      split at h
      · rename_i htail
        obtain ⟨rfl, rfl⟩ := Prod.mk.inj (Option.some.inj h)
        simp only [Bool.and_eq_true, decide_eq_true_eq, Bool.not_eq_true', Bool.and_eq_false_iff,
          decide_eq_false_iff_not] at htail
        obtain ⟨⟨⟨hb, hc⟩, hleast⟩, hpair⟩ := htail
        exact ⟨[b, c'], more, rfl, rfl, encode_three rfl (by omega) hb hc hleast (by omega)⟩
      · cases h
    · cases h
  split at h
  · split at h
    · rename_i b c' d more
      split at h
      · rename_i htail
        obtain ⟨rfl, rfl⟩ := Prod.mk.inj (Option.some.inj h)
        simp only [Bool.and_eq_true, decide_eq_true_eq] at htail
        obtain ⟨⟨⟨⟨hb, hc⟩, hd⟩, hleast⟩, hmost⟩ := htail
        exact ⟨[b, c', d], more, rfl, rfl, encode_four rfl (by omega) hb hc hd hleast hmost⟩
      · cases h
    · cases h
  · cases h

theorem toNat_byte {n : Nat} (h : n < 0x100) : (UInt8.ofNat n).toNat = n := by
  rw [UInt8.toNat_ofNat']
  exact Nat.mod_eq_of_lt h

theorem isTail_byte (n : Nat) : isTail (UInt8.ofNat (n % 64 + 0x80)) = true := by
  rw [isTail_iff, toNat_byte (by omega)]
  omega

theorem tailBits_byte (n : Nat) : tailBits (UInt8.ofNat (n % 64 + 0x80)) = n % 64 := by
  unfold tailBits
  rw [toNat_byte (by omega)]
  omega

theorem isTail_eq_false (h : b.toNat < 0x80 ∨ 0xC0 ≤ b.toNat) : isTail b = false := by
  rw [Bool.eq_false_iff]
  intro htail
  rw [isTail_iff] at htail
  omega

/-- How a character is written, and that it is read back from there, whatever stands behind it. -/
theorem exists_encode (c : Char) (y : List UInt8) :
    ∃ a tail, String.utf8EncodeChar c = a :: tail ∧ isTail a = false ∧
      charAt? a (tail ++ y) = some (c, tail.length) := by
  have hvalid : c.val.toNat.isValidChar := c.valid
  have hc : ∀ v, v = c.val.toNat → Char.ofNat v = c := fun v hv => by rw [hv]; exact Char.ofNat_toNat c
  have henc := String.utf8EncodeChar.eq_1 c
  generalize c.val.toNat = v at *
  simp only [Nat.isValidChar] at hvalid
  split at henc
  · have ha : (UInt8.ofNat v).toNat = v := toNat_byte (by omega)
    refine ⟨_, _, henc, isTail_eq_false (by omega), ?_⟩
    simp only [charAt?]
    rw [if_pos (by omega), ha, hc v rfl]
    rfl
  split at henc
  · have ha : (UInt8.ofNat (v / 64 % 32 + 192)).toNat = v / 64 % 32 + 192 := toNat_byte (by omega)
    refine ⟨_, _, henc, isTail_eq_false (by omega), ?_⟩
    simp only [charAt?, List.cons_append, isTail_byte, tailBits_byte]
    rw [if_neg (by omega), if_neg (by omega), if_pos (by omega), if_pos trivial, ha, hc _ (by omega)]
    rfl
  split at henc
  · have ha : (UInt8.ofNat (v / 4096 % 16 + 224)).toNat = v / 4096 % 16 + 224 := toNat_byte (by omega)
    refine ⟨_, _, henc, isTail_eq_false (by omega), ?_⟩
    simp only [charAt?, List.cons_append, isTail_byte, tailBits_byte, Bool.and_eq_true, Bool.not_eq_true',
      decide_eq_true_eq, Bool.and_eq_false_iff, decide_eq_false_iff_not, and_self, true_and]
    rw [if_neg (by omega), if_neg (by omega), if_neg (by omega), if_pos (by omega), if_pos (by omega), ha,
      hc _ (by omega)]
    rfl
  · have ha : (UInt8.ofNat (v / 262144 % 8 + 240)).toNat = v / 262144 % 8 + 240 := toNat_byte (by omega)
    refine ⟨_, _, henc, isTail_eq_false (by omega), ?_⟩
    simp only [charAt?, List.cons_append, isTail_byte, tailBits_byte, Bool.and_eq_true, decide_eq_true_eq,
      and_self, true_and]
    rw [if_neg (by omega), if_neg (by omega), if_neg (by omega), if_neg (by omega), if_pos (by omega),
      if_pos (by omega), ha, hc _ (by omega)]
    rfl

/-- Bytes that do not start in the middle of a character. -/
def Bounded (bytes : List UInt8) : Prop := ∀ b ∈ bytes.head?, isTail b = false

/-- A character does not go on into bytes that do not start in its middle. -/
theorem charAt?_append (hy : Bounded y) (a : UInt8) (rest : List UInt8) :
    charAt? a (rest ++ y) = charAt? a rest := by
  cases y with
  | nil => rw [List.append_nil]
  | cons e y =>
    have he : isTail e = false := hy e rfl
    unfold charAt?
    rcases rest with _ | ⟨b, _ | ⟨c, _ | ⟨d, rest⟩⟩⟩
    · cases y with
      | nil => simp [he]
      | cons f y => cases y <;> simp [he]
    · cases y <;> simp [he]
    · simp [he]
    · rfl

/-! ### Reading and writing -/

theorem ofBytesFrom_eq (skip : Nat) (bytes : List UInt8) :
    ofBytesFrom skip bytes = ofBytes (bytes.drop skip) := by
  induction skip generalizing bytes with
  | zero => rfl
  | succ skip ih =>
    cases bytes with
    | nil => rfl
    | cons a rest => exact ih rest

theorem ofBytes_char {n : Nat}
    (h : charAt? a rest = some (c, n)) : ofBytes (a :: rest) = .char c :: ofBytes (rest.drop n) := by
  rw [ofBytes, ofBytesFrom, h]
  exact congrArg _ (ofBytesFrom_eq n rest)

theorem ofBytes_stray (h : charAt? a rest = none) : ofBytes (a :: rest) = .byte a :: ofBytes rest := by
  rw [ofBytes, ofBytesFrom, h]
  rfl

theorem bytes_cons (g : Glyph) (t : Text) : bytes (g :: t) = g.bytes ++ bytes t := rfl

theorem bytes_append (t u : Text) : bytes (t ++ u) = bytes t ++ bytes u := by
  simp [bytes]

theorem length_bytes (t : Text) : t.bytes.length = t.width := by
  induction t with
  | nil => rfl
  | cons g t ih =>
    rw [bytes_cons, List.length_append, Glyph.length_bytes, ih]
    rfl

/-- Induction along the characters that bytes write and the bytes that belong to none. -/
theorem bytes_induct {P : List UInt8 → Prop} (nil : P [])
    (stray : ∀ a rest, charAt? a rest = none → P rest → P (a :: rest))
    (char : ∀ a tail more c, charAt? a (tail ++ more) = some (c, tail.length) →
      String.utf8EncodeChar c = a :: tail → P more → P (a :: (tail ++ more)))
    (bytes : List UInt8) : P bytes := by
  -- a character takes several bytes at once, so the induction is on their number
  induction hn : bytes.length using Nat.strongRecOn generalizing bytes with
  | _ n ih =>
    subst hn
    cases bytes with
    | nil => exact nil
    | cons a rest =>
      cases h : charAt? a rest with
      | none => exact stray a rest h (ih _ (Nat.lt_succ_self _) rest rfl)
      | some p =>
        obtain ⟨c, k⟩ := p
        obtain ⟨tail, more, rfl, rfl, henc⟩ := charAt?_eq_some h
        refine char a tail more c h henc (ih _ ?_ more rfl)
        simp only [List.length_cons, List.length_append]
        omega

theorem bytes_ofBytes (bytes : List UInt8) : (ofBytes bytes).bytes = bytes := by
  induction bytes using bytes_induct with
  | nil => rfl
  | stray a rest h ih =>
    rw [ofBytes_stray h, bytes_cons, ih]
    rfl
  | char a tail more c h henc ih =>
    rw [ofBytes_char h, bytes_cons, List.drop_left, ih, Glyph.bytes, henc]
    rfl

/-- Bytes that do not start in the middle of a character are read as if nothing stood before them. -/
theorem ofBytes_append (hy : Bounded y) (x : List UInt8) : ofBytes (x ++ y) = ofBytes x ++ ofBytes y := by
  induction x using bytes_induct with
  | nil => rfl
  | stray a rest h ih =>
    rw [List.cons_append, ofBytes_stray ((charAt?_append hy a rest).trans h), ofBytes_stray h, ih]
    rfl
  | char a tail more c h henc ih =>
    rw [List.cons_append, ofBytes_char ((charAt?_append hy a _).trans h), ofBytes_char h, List.append_assoc,
      List.drop_left, List.drop_left, ih]
    rfl

theorem ofBytes_encode (c : Char) (y : List UInt8) :
    ofBytes (String.utf8EncodeChar c ++ y) = .char c :: ofBytes y := by
  obtain ⟨a, tail, henc, -, hchar⟩ := exists_encode c y
  rw [henc, List.cons_append, ofBytes_char hchar, List.drop_left]

theorem bounded_encode (c : Char) (y : List UInt8) : Bounded (String.utf8EncodeChar c ++ y) := by
  obtain ⟨a, tail, henc, ha, -⟩ := exists_encode c y
  intro b hb
  rw [henc] at hb
  cases hb
  exact ha

/-! ### Parts of a text -/

theorem width_cons (g : Glyph) (t : Text) : width (g :: t) = g.width + width t := rfl

theorem width_append (t u : Text) : width (t ++ u) = width t + width u := by
  rw [← length_bytes, bytes_append, List.length_append, length_bytes, length_bytes]

theorem append_inj_of_width {t' u' : Text} (h : t ++ u = t' ++ u') (hwidth : t.width = t'.width) :
    t = t' ∧ u = u' := by
  induction t generalizing t' with
  | nil =>
    cases t' with
    | nil => exact ⟨rfl, h⟩
    | cons g t' =>
      rw [width_cons] at hwidth
      have hpos := Glyph.width_pos g
      have hnil : width [] = 0 := rfl
      omega
  | cons g t ih =>
    cases t' with
    | nil =>
      rw [width_cons] at hwidth
      have hpos := Glyph.width_pos g
      have hnil : width [] = 0 := rfl
      omega
    | cons g' t' =>
      obtain ⟨rfl, htail⟩ := List.cons.inj h
      rw [width_cons, width_cons] at hwidth
      obtain ⟨rfl, hu⟩ := ih htail (by omega)
      exact ⟨rfl, hu⟩

/-- No stray byte comes first. -/
def StartsClean (t : Text) : Prop := ∀ g ∈ t.head?, ∃ c, g = .char c

theorem StartsClean.bounded (h : StartsClean t) : Bounded t.bytes := by
  cases t with
  | nil =>
    intro b hb
    cases hb
  | cons g t =>
    obtain ⟨c, rfl⟩ := h g rfl
    exact bounded_encode c _

theorem StartsClean.append (ht : StartsClean t) (hu : StartsClean u) : StartsClean (t ++ u) := by
  cases t with
  | nil => exact hu
  | cons g t => exact ht

/-- A text that bytes write, cut in front of a character, is written by the bytes of its parts. -/
theorem ofBytes_parts {bytes : List UInt8} (h : ofBytes bytes = t ++ u) (hu : StartsClean u) :
    ofBytes t.bytes = t ∧ ofBytes u.bytes = u := by
  have hbytes : bytes = t.bytes ++ u.bytes := by
    rw [← bytes_append, ← h, bytes_ofBytes]
  rw [hbytes, ofBytes_append hu.bounded] at h
  refine append_inj_of_width h ?_
  rw [← length_bytes, bytes_ofBytes, length_bytes]

theorem charAt?_encode {tail : List UInt8} (h : String.utf8EncodeChar c = a :: tail)
    (y : List UInt8) : charAt? a (tail ++ y) = some (c, tail.length) := by
  obtain ⟨a', tail', h', -, hchar⟩ := exists_encode c y
  rw [h] at h'
  cases h'
  exact hchar

theorem charAt?_mono {x : List UInt8} {n : Nat} (h : charAt? a x = some (c, n))
    (y : List UInt8) : charAt? a (x ++ y) = some (c, n) := by
  obtain ⟨tail, more, rfl, rfl, henc⟩ := charAt?_eq_some h
  rw [List.append_assoc]
  exact charAt?_encode henc (more ++ y)

/-- A text that bytes write is written part by part, wherever it is cut between two glyphs. -/
theorem ofBytes_split {x : List UInt8} (h : ofBytes (x ++ y) = t ++ u) (hwidth : t.width = x.length) :
    ofBytes x = t ∧ ofBytes y = u := by
  induction t generalizing x with
  | nil =>
    obtain rfl : x = [] := List.eq_nil_of_length_eq_zero hwidth.symm
    exact ⟨rfl, h⟩
  | cons g t ih =>
    cases x with
    | nil =>
      have hpos := g.width_pos
      rw [width_cons, List.length_nil] at hwidth
      omega
    | cons a x =>
      rw [width_cons, List.length_cons] at hwidth
      rw [List.cons_append] at h
      cases hchar : charAt? a (x ++ y) with
      | none =>
        have hx : charAt? a x = none := by
          cases hx : charAt? a x with
          | none => rfl
          | some r =>
            rw [charAt?_mono hx y] at hchar
            cases hchar
        rw [ofBytes_stray hchar, List.cons_append, List.cons.injEq] at h
        obtain ⟨rfl, h⟩ := h
        have hg : Glyph.width (.byte a) = 1 := rfl
        obtain ⟨ht, hu⟩ := ih h (by omega)
        exact ⟨by rw [ofBytes_stray hx, ht], hu⟩
      | some r =>
        obtain ⟨c, n⟩ := r
        rw [ofBytes_char hchar, List.cons_append, List.cons.injEq] at h
        obtain ⟨rfl, h⟩ := h
        obtain ⟨tail, more, htail, rfl, henc⟩ := charAt?_eq_some hchar
        have hg : Glyph.width (.char c) = tail.length + 1 := by
          rw [← Glyph.length_bytes, Glyph.bytes, henc, List.length_cons]
        -- the bytes of the character all lie in front of the cut
        have hprefix : tail <+: x :=
          List.prefix_of_prefix_length_le ⟨more, htail.symm⟩ (List.prefix_append x y) (by omega)
        obtain ⟨rest, rfl⟩ := hprefix
        rw [List.append_assoc, List.drop_left] at h
        rw [List.length_append] at hwidth
        obtain ⟨ht, hu⟩ := ih h (by omega)
        exact ⟨by rw [ofBytes_char (charAt?_encode henc rest), List.drop_left, ht], hu⟩

theorem ofBytes_cut {bytes : List UInt8} (h : ofBytes bytes = t ++ u) :
    t.width + u.width = bytes.length ∧ ofBytes (bytes.take t.width) = t ∧ ofBytes (bytes.drop t.width) = u := by
  have hlength : t.width + u.width = bytes.length := by
    rw [← width_append, ← h, ← length_bytes, bytes_ofBytes]
  refine ⟨hlength, ofBytes_split ?_ ?_⟩
  · rw [List.take_append_drop, h]
  · rw [List.length_take]
    omega

end Text

end Anadil
