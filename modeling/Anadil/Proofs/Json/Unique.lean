import Anadil.Proofs.Json.Difference

/-! # Documents tell values apart

Values that write the same bytes are the same, as far as writing keeps them, whatever unit a layout
indents by. Where one value ends and the next begins is settled by the bytes alone, so this is shown
of values with any bytes behind them. -/

namespace Anadil

namespace Text

variable {t u : Text} {x y : List UInt8} {c : Char} {same : Prop} {closing : String}

theorem ofBytes_append_of_isClean (h : t.isClean = true) (y : List UInt8) :
    ofBytes (t.bytes ++ y) = t ++ ofBytes y := by
  obtain ⟨cs, rfl⟩ := isClean_iff.mp h
  clear h
  induction cs with
  | nil => rfl
  | cons c cs ih =>
    rw [List.map_cons, bytes_cons, List.append_assoc]
    exact (ofBytes_encode c _).trans (congrArg _ ih)

theorem ofBytes_inj (h : ofBytes x = ofBytes y) : x = y := by
  rw [← bytes_ofBytes x, h, bytes_ofBytes]

theorem bytes_char_inj {d : Char}
    (h : bytes (.char c :: t) ++ x = bytes (.char d :: u) ++ y) : c = d ∧ t.bytes ++ x = u.bytes ++ y := by
  rw [bytes_cons, bytes_cons, List.append_assoc, List.append_assoc] at h
  have hread := congrArg ofBytes h
  rw [Glyph.bytes, Glyph.bytes, ofBytes_encode, ofBytes_encode] at hread
  obtain rfl : c = d := Glyph.char.inj (List.cons.inj hread).1
  exact ⟨rfl, List.append_cancel_left h⟩

end Text

namespace Json

/-! ### Texts and numbers -/

theorem isClean_escapedChar (c : Char) : (escapedChar c).isClean = true := by
  unfold escapedChar
  split
  iterate 7 rfl
  split
  · refine isClean_append.mpr ⟨rfl, ?_⟩
    simp [Text.hex, Text.isClean]
  · rfl

theorem isClean_quoted (s : Text) : (quoted s).isClean = true := by
  have hbody : Text.isClean (s.flatMap fun g => escapedChar g.seen) = true := by
    induction s with
    | nil => rfl
    | cons g s ih =>
      rw [List.flatMap_cons]
      exact isClean_append.mpr ⟨isClean_escapedChar g.seen, ih⟩
  exact isClean_append.mpr ⟨hbody, rfl⟩

theorem quoted_inj {s s' : Text} (h : (quoted s).bytes ++ x = (quoted s').bytes ++ y) :
    s.clean = s'.clean ∧ x = y := by
  have hread := congrArg Text.ofBytes h
  rw [Text.ofBytes_append_of_isClean (isClean_quoted s), Text.ofBytes_append_of_isClean (isClean_quoted s'),
    quoted_append, quoted_append, List.cons.injEq] at hread
  have hstring := congrArg readString hread.2
  rw [readString_quoted, readString_quoted] at hstring
  obtain ⟨hs, hrest⟩ := Prod.mk.inj (Except.ok.inj hstring)
  exact ⟨hs, Text.ofBytes_inj hrest⟩

/-- A number ends where something follows that cannot belong to it. -/
theorem number_inj {n n' : Text} (hn : isNumber n = true) (hn' : isNumber n' = true)
    (hx : Stops (Text.ofBytes x)) (hy : Stops (Text.ofBytes y)) (h : n.bytes ++ x = n'.bytes ++ y) :
    n = n' ∧ x = y := by
  have hread := congrArg Text.ofBytes h
  rw [Text.ofBytes_append_of_isClean (isClean_of_isNumber hn),
    Text.ofBytes_append_of_isClean (isClean_of_isNumber hn')] at hread
  have hextent := congrArg numberExtent hread
  rw [numberExtent_append hn hx, numberExtent_append hn' hy, Extent.reaches.injEq] at hextent
  exact ⟨hextent.1, Text.ofBytes_inj hextent.2⟩

/-! ### Values in a row -/

/-- A number does not go on into the bytes. -/
def StopsBytes (x : List UInt8) : Prop := Stops (Text.ofBytes x)

theorem stopsBytes_char (hc : c ∈ endMarks) (t : Text) (x : List UInt8) :
    StopsBytes (Text.bytes (.char c :: t) ++ x) := by
  rw [StopsBytes, Text.bytes_cons, List.append_assoc, Glyph.bytes, Text.ofBytes_encode]
  exact stops_marks c hc _

/-- Two texts with bytes behind them give away what they stand for and where they end. -/
def Tells (same : Prop) (t u : Text) : Prop :=
  ∀ x y : List UInt8, StopsBytes x → StopsBytes y → t.bytes ++ x = u.bytes ++ y → same ∧ x = y

theorem Tells.imp {same' : Prop} (h : Tells same t u) (himp : same → same') : Tells same' t u := by
  intro x y hx hy heq
  exact (h x y hx hy heq).imp_left himp

theorem Tells.symm (h : Tells same t u) : Tells same u t := by
  intro x y hx hy heq
  obtain ⟨hsame, hxy⟩ := h y x hy hx heq.symm
  exact ⟨hsame, hxy.symm⟩

theorem tells_refl (t : Text) : Tells True t t := fun _ _ _ _ h => ⟨trivial, List.append_cancel_left h⟩

/-- Two texts tell things apart one after the other. -/
theorem Tells.append {same' : Prop} {t' u' : Text} (h : Tells same t u) (h' : Tells same' t' u')
    (ht : ∀ x, StopsBytes x → StopsBytes (t'.bytes ++ x)) (hu : ∀ y, StopsBytes y → StopsBytes (u'.bytes ++ y)) :
    Tells (same ∧ same') (t ++ t') (u ++ u') := by
  intro x y hx hy heq
  rw [Text.bytes_append, Text.bytes_append, List.append_assoc, List.append_assoc] at heq
  obtain ⟨hsame, hrest⟩ := h _ _ (ht x hx) (hu y hy) heq
  obtain ⟨hsame', hxy⟩ := h' x y hx hy hrest
  exact ⟨⟨hsame, hsame'⟩, hxy⟩

theorem Tells.behind (h : Tells same t u) (front : Text) : Tells same (front ++ t) (front ++ u) := by
  intro x y hx hy heq
  rw [Text.bytes_append, Text.bytes_append, List.append_assoc, List.append_assoc] at heq
  exact h x y hx hy (List.append_cancel_left heq)

theorem tells_of_ne {d : Char} (h : c ≠ d) (t u : Text) : Tells same (.char c :: t) (.char d :: u) :=
  fun _ _ _ _ heq => absurd (Text.bytes_char_inj heq).1 h

theorem stopsBytes_behind (h : IsClosing closing) (l : Layout) (depth : Nat) (ps : List Text)
    (x : List UInt8) : StopsBytes ((l.behind depth closing ps).bytes ++ x) := by
  obtain ⟨c, t, ht, hc⟩ := behind_head h l depth ps
  rw [ht]
  exact stopsBytes_char hc t x

theorem behind_nil_head (h : IsClosing closing) (l : Layout) (depth : Nat) :
    ∃ c t, l.behind depth closing [] = .char c :: t ∧ c ≠ ',' := by
  rw [behind_nil]
  rcases h with rfl | rfl <;> cases l <;> exact ⟨_, _, rfl, by decide⟩

/-- A text that starts as a value or a name does, and so not with a mark that closes. -/
def Begins (t : Text) : Prop := ∃ c u, t = .char c :: u ∧ c ≠ ']' ∧ c ≠ '\x7d'

theorem enclose_nil (l : Layout) (depth : Nat) (opening closing : String) :
    l.enclose depth opening closing [] = opening ++ (closing : Text) := rfl

theorem Begins.tells_nil {p : Text} (h : Begins p) (hclosing : IsClosing closing) (l : Layout)
    (depth : Nat) (opening : String) (ps : List Text) :
    Tells False (l.enclose depth opening closing []) (l.enclose depth opening closing (p :: ps)) := by
  obtain ⟨c, u, rfl, hbracket, hbrace⟩ := h
  rw [enclose_nil, enclose_cons]
  refine Tells.behind ?_ _
  cases l with
  | compact =>
    rcases hclosing with rfl | rfl
    · exact tells_of_ne hbracket.symm _ _
    · exact tells_of_ne hbrace.symm _ _
  | indented unit => rcases hclosing with rfl | rfl <;> exact tells_of_ne (by decide) _ _

section Parts
variable {α β : Type} {write : α → Text} {key : α → β} {closing : String}

/-- What stands behind the first part tells the other parts. -/
theorem tells_behind (hclosing : IsClosing closing) (l : Layout) (depth : Nat) {xs ys : List α}
    (h : ∀ a ∈ xs, ∀ b ∈ ys, Tells (key a = key b) (write a) (write b)) :
    Tells (xs.map key = ys.map key) (l.behind depth closing (xs.map write)) (l.behind depth closing (ys.map write)) := by
  obtain ⟨c, t, ht, hc⟩ := behind_nil_head hclosing l depth
  induction xs generalizing ys with
  | nil =>
    cases ys with
    | nil => exact (tells_refl _).imp fun _ => rfl
    | cons b ys =>
      simp only [List.map_nil, List.map_cons, ht, behind_cons]
      exact tells_of_ne hc _ _
  | cons a xs ih =>
    cases ys with
    | nil =>
      simp only [List.map_nil, List.map_cons, ht, behind_cons]
      exact tells_of_ne hc.symm _ _
    | cons b ys =>
      rw [List.forall_mem_cons] at h
      have hxs := ih fun a ha b hb => h.2 a ha b (List.mem_cons_of_mem _ hb)
      have hfirst := (h.1 b List.mem_cons_self).append hxs
        (fun x _ => stopsBytes_behind hclosing l depth _ x) (fun y _ => stopsBytes_behind hclosing l depth _ y)
      simp only [List.map_cons, behind_cons]
      exact ((hfirst.behind (l.newLine (depth + 1))).behind [.char ',']).imp fun ⟨hkey, hkeys⟩ => by rw [hkey, hkeys]

/-- Parts between two marks are told by what they write, if none of them starts like the closing mark. -/
theorem tells_enclose (hclosing : IsClosing closing) (l : Layout) (depth : Nat) (opening : String) {xs ys : List α}
    (h : ∀ a ∈ xs, ∀ b ∈ ys, Tells (key a = key b) (write a) (write b))
    (hxs : ∀ a ∈ xs, Begins (write a)) (hys : ∀ b ∈ ys, Begins (write b)) :
    Tells (xs.map key = ys.map key) (l.enclose depth opening closing (xs.map write))
      (l.enclose depth opening closing (ys.map write)) := by
  cases xs with
  | nil =>
    cases ys with
    | nil => exact (tells_refl _).imp fun _ => rfl
    | cons b ys =>
      exact ((hys b List.mem_cons_self).tells_nil hclosing l depth opening (ys.map write)).imp False.elim
  | cons a xs =>
    cases ys with
    | nil => exact ((hxs a List.mem_cons_self).tells_nil hclosing l depth opening (xs.map write)).symm.imp False.elim
    | cons b ys =>
      rw [List.forall_mem_cons] at h
      have hrest : Tells (xs.map key = ys.map key) _ _ :=
        tells_behind hclosing l depth fun a ha b hb => h.2 a ha b (List.mem_cons_of_mem _ hb)
      have hfirst := (h.1 b List.mem_cons_self).append hrest
        (fun x _ => stopsBytes_behind hclosing l depth _ x) (fun y _ => stopsBytes_behind hclosing l depth _ y)
      simp only [List.map_cons, enclose_cons]
      exact ((hfirst.behind (l.newLine (depth + 1))).behind opening).imp fun ⟨hkey, hkeys⟩ => by rw [hkey, hkeys]

end Parts

/-! ### Values -/

/-- Values that begin with different signs are told apart at once. -/
theorem tells_of_sign {l : Layout} {v w : Json} (hv : v.firstBadNumber = none)
    (hw : w.firstBadNumber = none) (depth : Nat)
    (h : v.sign = w.sign → Tells same (v.written l depth) (w.written l depth)) :
    Tells same (v.written l depth) (w.written l depth) := by
  intro x y hx hy heq
  obtain ⟨c, t, ht, hc⟩ := written_head hv l depth
  obtain ⟨d, u, hu, hd⟩ := written_head hw l depth
  have hsign : v.sign = w.sign := by
    rw [ht, hu] at heq
    obtain ⟨rfl, -⟩ := Text.bytes_char_inj heq
    exact hc.symm.trans hd
  exact h hsign x y hx hy heq

theorem begins_written {v : Json} (h : v.firstBadNumber = none) (l : Layout) (depth : Nat) :
    Begins (v.written l depth) := by
  obtain ⟨c, t, ht, hc⟩ := written_head h l depth
  exact ⟨c, t, ht, (hc.ne (by decide)).symm, (hc.ne (by decide)).symm⟩

theorem begins_quoted (s t : Text) : Begins (quoted s ++ t) := ⟨'"', _, quoted_append s t, by decide, by decide⟩

theorem tells_quoted (s s' : Text) : Tells (s.clean = s'.clean) (quoted s) (quoted s') :=
  fun _ _ _ _ h => quoted_inj h

theorem stopsBytes_colon (l : Layout) (t : Text) (x : List UInt8) : StopsBytes ((l.colon ++ t).bytes ++ x) := by
  cases l <;> exact stopsBytes_char (by decide) _ x

theorem tells_field {l : Layout} {f g : Text × Json} (h : Tells (f.2.plain = g.2.plain) t u) :
    Tells ((f.1.clean, f.2.plain) = (g.1.clean, g.2.plain)) (quoted f.1 ++ l.colon ++ t) (quoted g.1 ++ l.colon ++ u) := by
  rw [List.append_assoc, List.append_assoc]
  refine ((tells_quoted f.1 g.1).append (h.behind l.colon) ?_ ?_).imp fun ⟨hname, hvalue⟩ => by rw [hname, hvalue]
  · exact fun x _ => stopsBytes_colon l t x
  · exact fun y _ => stopsBytes_colon l u y

/-- Written values are told apart unless their plain forms are the same. -/
theorem tells_written (l : Layout) (v : Json) (hv : v.firstBadNumber = none) {w : Json}
    (hw : w.firstBadNumber = none) (depth : Nat) :
    Tells (v.plain = w.plain) (v.written l depth) (w.written l depth) := by
  induction v using Json.induct generalizing w depth with
  | null =>
    refine tells_of_sign hv hw depth fun hsign => ?_
    cases w with
    | null => exact (tells_refl _).imp fun _ => rfl
    | bool b => cases b <;> cases hsign
    | _ => cases hsign
  | bool b =>
    refine tells_of_sign hv hw depth fun hsign => ?_
    cases w with
    | bool b' =>
      cases b <;> cases b' <;> cases hsign <;> exact (tells_refl _).imp fun _ => rfl
    | _ => cases b <;> cases hsign
  | number n =>
    refine tells_of_sign hv hw depth fun hsign => ?_
    cases w with
    | number n' =>
      intro x y hx hy heq
      obtain ⟨hn, hxy⟩ := number_inj (isNumber_spelled hv) (isNumber_spelled hw) hx hy heq
      exact ⟨congrArg number hn, hxy⟩
    | bool b => cases b <;> cases hsign
    | _ => cases hsign
  | string s =>
    refine tells_of_sign hv hw depth fun hsign => ?_
    cases w with
    | string s' => exact (tells_quoted s s').imp (congrArg string)
    | bool b => cases b <;> cases hsign
    | _ => cases hsign
  | array items ih =>
    refine tells_of_sign hv hw depth fun hsign => ?_
    cases w with
    | array items' =>
      have hv := firstBadItem_eq_none.mp hv
      have hw := firstBadItem_eq_none.mp hw
      rw [written, written, writtenItems_eq, writtenItems_eq, plain, plain, plainItems_eq, plainItems_eq]
      refine (tells_enclose (.inl rfl) l depth "[" (fun v hmem w hmem' => ?_) (fun v hmem => ?_) fun w hmem => ?_).imp
        (congrArg array)
      · exact ih v hmem (hv v hmem) (hw w hmem') (depth + 1)
      · exact begins_written (hv v hmem) l (depth + 1)
      · exact begins_written (hw w hmem) l (depth + 1)
    | bool b => cases b <;> cases hsign
    | _ => cases hsign
  | object fields ih =>
    refine tells_of_sign hv hw depth fun hsign => ?_
    cases w with
    | object fields' =>
      have hv := firstBadField_eq_none.mp hv
      have hw := firstBadField_eq_none.mp hw
      rw [written, written, writtenFields_eq, writtenFields_eq, plain, plain, plainFields_eq, plainFields_eq]
      refine (tells_enclose (.inr rfl) l depth "\x7b" (fun f hmem g hmem' => ?_) (fun f hmem => ?_) fun g hmem => ?_).imp
        (congrArg object)
      · exact tells_field (ih f hmem (hv f hmem) (hw g hmem') (depth + 1))
      · rw [List.append_assoc]
        exact begins_quoted f.1 _
      · rw [List.append_assoc]
        exact begins_quoted g.1 _
    | bool b => cases b <;> cases hsign
    | _ => cases hsign

/-- Documents of the same bytes, laid out alike, write the same value. -/
theorem plain_of_document {l : Layout} {v w : Json} (hv : v.firstBadNumber = none) (hw : w.firstBadNumber = none)
    (h : (document l v).bytes = (document l w).bytes) : v.plain = w.plain := by
  have hstops : StopsBytes (Text.bytes ("\n" : String)) := by
    rw [← List.append_nil (Text.bytes _)]
    exact stopsBytes_char (by decide) [] []
  rw [document, document, Text.bytes_append, Text.bytes_append] at h
  exact (tells_written l v hv hw 0 _ _ hstops hstops h).1

end Json

end Anadil
