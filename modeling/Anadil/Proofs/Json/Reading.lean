import Anadil.Proofs.Json.Spelling

/-! # Reading what was written

A document that is laid out with white space is read as the value that it writes, as far as writing keeps
it. Whatever is read of a document is that value, even where it is nested too deep to be read. -/

namespace Anadil.Json

variable {l : Layout} {c : Char} {v : Json} {closing : String} {depth fuel : Nat} {n rest after r : Text}
  {fs : List (Text × Json)}

/-! ### Layout -/

/-- A layout that puts only white space between the parts of a document. -/
def Layout.IsBlank : Layout → Prop
  | .compact => True
  | .indented unit => ∀ g ∈ unit, isBlank g = true

/-- What stands behind the first of the parts between two marks. -/
def Layout.behind (l : Layout) (depth : Nat) (closing : String) (parts : List Text) : Text :=
  parts.flatMap (fun p => .char ',' :: (l.newLine (depth + 1) ++ p)) ++ (l.newLine depth ++ (closing : Text))

theorem join_cons (sep t : Text) (ts : List Text) : Text.join sep (t :: ts) = t ++ ts.flatMap (sep ++ ·) := by
  induction ts generalizing t with
  | nil => simp [Text.join]
  | cons u ts ih =>
    rw [Text.join, ih, List.flatMap_cons, List.append_assoc, List.append_assoc]
    exact List.cons_ne_nil u ts

theorem enclose_cons (l : Layout) (depth : Nat) (opening closing : String) (p : Text) (ps : List Text) :
    l.enclose depth opening closing (p :: ps) =
      opening ++ (l.newLine (depth + 1) ++ (p ++ l.behind depth closing ps)) := by
  have hcomma : (fun p : Text => (("," : String) : Text) ++ (l.newLine (depth + 1) ++ p)) =
      fun p => .char ',' :: (l.newLine (depth + 1) ++ p) := rfl
  simp only [Layout.enclose, List.isEmpty_cons, List.map_cons, join_cons, List.flatMap_map, Layout.behind,
    List.append_assoc, Bool.false_eq_true, if_false, hcomma]

theorem behind_nil (l : Layout) (depth : Nat) (closing : String) :
    l.behind depth closing [] = l.newLine depth ++ (closing : Text) := rfl

theorem behind_cons (l : Layout) (depth : Nat) (closing : String) (p : Text) (ps : List Text) :
    l.behind depth closing (p :: ps) =
      .char ',' :: (l.newLine (depth + 1) ++ (p ++ l.behind depth closing ps)) := by
  simp [Layout.behind]

theorem skipBlanks_newLine (hl : l.IsBlank) (depth : Nat) (t : Text) :
    skipBlanks (l.newLine depth ++ t) = skipBlanks t := by
  cases l with
  | compact => rfl
  | indented unit =>
    refine List.dropWhile_append_of_pos ?_
    intro g hg
    rcases List.mem_cons.mp hg with rfl | hg
    · rfl
    · obtain ⟨u, hu, hgu⟩ := List.mem_flatten.mp hg
      rw [List.eq_of_mem_replicate hu] at hgu
      exact hl g hgu

theorem skipBlanks_colon (l : Layout) (t : Text) :
    ∃ u, l.colon ++ t = .char ':' :: u ∧ skipBlanks u = skipBlanks t := by
  cases l with
  | compact => exact ⟨t, rfl, rfl⟩
  | indented unit => exact ⟨.char ' ' :: t, rfl, rfl⟩

theorem skipBlanks_char (h : isBlank (.char c) = false) (t : Text) :
    skipBlanks (.char c :: t) = .char c :: t := by
  simp [skipBlanks, h]

/-! ### Values -/

/-- The sign at the start of a value. A number has many, and a zero stands for them. -/
def sign : Json → Char
  | null => 'n'
  | bool true => 't'
  | bool false => 'f'
  | number _ => '0'
  | string _ => '"'
  | array _ => '['
  | object _ => '\x7b'

/-- Whether a value can start with a character. -/
def Opens (v : Json) (c : Char) : Prop := (if c = '-' ∨ c.isDigit = true then '0' else c) = v.sign

theorem enclose_head (l : Layout) (depth : Nat) (opening closing : String) (ps : List Text) :
    ∃ t, l.enclose depth opening closing ps = opening ++ t := by
  cases ps with
  | nil => exact ⟨_, rfl⟩
  | cons p ps => exact ⟨_, enclose_cons l depth opening closing p ps⟩

theorem written_head (h : v.firstBadNumber = none) (l : Layout) (depth : Nat) :
    ∃ c t, v.written l depth = .char c :: t ∧ v.Opens c := by
  cases v with
  | null => exact ⟨'n', _, rfl, rfl⟩
  | bool b =>
    cases b with
    | true => exact ⟨'t', _, rfl, rfl⟩
    | false => exact ⟨'f', _, rfl, rfl⟩
  | number n =>
    obtain ⟨c, t, ht, hc⟩ := head_of_isNumber (isNumber_spelled h)
    exact ⟨c, t, ht, if_pos hc⟩
  | string s => exact ⟨'"', _, rfl, rfl⟩
  | array items =>
    obtain ⟨t, ht⟩ := enclose_head l depth "[" "]" (writtenItems l (depth + 1) items)
    exact ⟨'[', t, ht, rfl⟩
  | object fields =>
    obtain ⟨t, ht⟩ := enclose_head l depth "\x7b" "\x7d" (writtenFields l (depth + 1) fields)
    exact ⟨'\x7b', t, ht, rfl⟩

theorem sign_mem (v : Json) : v.sign ∈ "ntf0\"[\x7b".toList := by
  unfold sign
  split <;> decide

theorem Opens.ne (h : v.Opens c) {d : Char}
    (hd : (if d = '-' ∨ d.isDigit = true then '0' else d) ∉ "ntf0\"[\x7b".toList) : d ≠ c := by
  rintro rfl
  exact hd (h ▸ sign_mem v)

theorem Opens.isBlank (h : v.Opens c) : isBlank (.char c) = false := by
  simp [Json.isBlank, Glyph.is, h.ne (d := ' ') (by decide), h.ne (d := '\t') (by decide),
    h.ne (d := '\n') (by decide), h.ne (d := '\r') (by decide)]

/-- The marks that close a list or an object. -/
def IsClosing (closing : String) : Prop := closing = "]" ∨ closing = "\x7d"

/-- The marks that can stand behind a name or a value. -/
def endMarks : List Char := [',', ':', '\n', ']', '\x7d']

theorem behind_head (h : IsClosing closing) (l : Layout) (depth : Nat) (ps : List Text) :
    ∃ c t, l.behind depth closing ps = .char c :: t ∧ c ∈ endMarks := by
  cases ps with
  | cons p ps => exact ⟨',', _, behind_cons l depth closing p ps, by decide⟩
  | nil =>
    rw [behind_nil]
    rcases h with rfl | rfl <;> cases l <;> exact ⟨_, _, rfl, by decide⟩

theorem stops_marks : ∀ c ∈ endMarks, ∀ t, Stops (.char c :: t) := by
  intro c hc t
  refine stops_cons.mpr ?_
  simp only [endMarks, List.mem_cons, List.not_mem_nil, or_false] at hc
  rcases hc with rfl | rfl | rfl | rfl | rfl <;> decide

theorem stops_behind (h : IsClosing closing) (l : Layout) (depth : Nat) (ps : List Text)
    (rest : Text) : Stops (l.behind depth closing ps ++ rest) := by
  obtain ⟨c, t, ht, hc⟩ := behind_head h l depth ps
  rw [ht]
  exact stops_marks c hc _

theorem skipBlanks_behind_nil (hl : l.IsBlank) (h : IsClosing closing) (depth : Nat)
    (rest : Text) : skipBlanks (l.behind depth closing [] ++ rest) = closing ++ rest := by
  rw [behind_nil, List.append_assoc, skipBlanks_newLine hl]
  rcases h with rfl | rfl <;> rfl

/-- What is blank in a layout is skipped. -/
theorem skipBlanks_written (hl : l.IsBlank) (hv : v.firstBadNumber = none) (d depth : Nat) (t : Text) :
    skipBlanks (l.newLine d ++ (v.written l depth ++ t)) = v.written l depth ++ t := by
  obtain ⟨c, u, hu, hc⟩ := written_head hv l depth
  rw [skipBlanks_newLine hl, hu, List.cons_append, skipBlanks_char hc.isBlank]

theorem length_behind_pos (h : IsClosing closing) (l : Layout) (depth : Nat) (ps : List Text) :
    0 < (l.behind depth closing ps).length := by
  have hclosing : 0 < (closing : Text).length := by rcases h with rfl | rfl <;> decide
  simp only [Layout.behind, List.length_append]
  omega

/-- Wherever a value is written, it is read up to its end. -/
def ReadsBack (l : Layout) (v : Json) : Prop :=
  v.firstBadNumber = none → ∀ (d depth fuel : Nat) {rest : Text}, v.nesting ≤ depth →
    2 * (v.written l d).length ≤ fuel → Stops rest →
      readValue fuel depth (v.written l d ++ rest) = .ok (v.plain, rest)

/-- The items of a list are read back up to its end. -/
theorem readItems_written (hl : l.IsBlank) {vs : List Json} (d fuel : Nat)
    (hread : ∀ w ∈ v :: vs, ReadsBack l w) (hgood : ∀ w ∈ v :: vs, w.firstBadNumber = none)
    (hdepth : ∀ w ∈ v :: vs, w.nesting ≤ depth)
    (hfuel : 2 * (v.written l (d + 1) ++ l.behind d "]" (writtenItems l (d + 1) vs)).length ≤ fuel) (rest : Text) :
    readItems fuel depth (v.written l (d + 1) ++ (l.behind d "]" (writtenItems l (d + 1) vs) ++ rest)) =
      .ok (plainItems (v :: vs), rest) := by
  induction vs generalizing v fuel with
  | nil =>
    have hlen := length_behind_pos (.inl rfl : IsClosing "]") l d []
    simp only [writtenItems, List.length_append] at hfuel
    obtain ⟨f, rfl⟩ : ∃ f, fuel = f + 1 := ⟨fuel - 1, by omega⟩
    have hv := hread v List.mem_cons_self (hgood v List.mem_cons_self) (d + 1) depth f
      (hdepth v List.mem_cons_self) (by omega) (stops_behind (.inl rfl) l d [] rest)
    simp only [writtenItems, readItems, hv, bind, Except.bind, skipBlanks_behind_nil hl (.inl rfl)]
    rfl
  | cons w vs ih =>
    rw [List.forall_mem_cons] at hread hgood hdepth
    rw [writtenItems, behind_cons] at hfuel
    simp only [List.length_append, List.length_cons] at hfuel
    obtain ⟨f, rfl⟩ : ∃ f, fuel = f + 1 := ⟨fuel - 1, by omega⟩
    have hv := hread.1 hgood.1 (d + 1) depth f hdepth.1 (by omega)
      (stops_behind (.inl rfl) l d (writtenItems l (d + 1) (w :: vs)) rest)
    have hvs := ih f hread.2 hgood.2 hdepth.2 (by simp only [List.length_append]; omega)
    rw [readItems, hv, writtenItems, behind_cons]
    simp only [bind, Except.bind, List.cons_append, List.append_assoc,
      skipBlanks_char (show isBlank (.char ',') = false by decide),
      skipBlanks_written hl (hgood.2 w List.mem_cons_self), hvs]
    rfl

/-- Behind a field stands the end of the object, or a comma and more fields. -/
theorem readFields_field {d : Nat}
    (hread : ReadsBack l v) (hgood : v.firstBadNumber = none) (hdepth : v.nesting ≤ depth)
    (hfuel : 2 * (v.written l d).length ≤ fuel) (hrest : Stops rest)
    (hbehind : (fs = [] ∧ skipBlanks rest = .char '\x7d' :: after) ∨
      ∃ next, skipBlanks rest = .char ',' :: next ∧ readFields fuel depth (skipBlanks next) = .ok (fs, after)) :
    readFields (fuel + 1) depth (quoted n ++ l.colon ++ v.written l d ++ rest) =
      .ok ((n.clean, v.plain) :: fs, after) := by
  obtain ⟨u, hu, hskip⟩ := skipBlanks_colon l (v.written l d ++ rest)
  obtain ⟨c, w, hw, hc⟩ := written_head hgood l d
  have hvalue : skipBlanks u = v.written l d ++ rest := by
    rw [hskip, hw, List.cons_append, skipBlanks_char hc.isBlank]
  rw [List.append_assoc, List.append_assoc, hu, quoted_append, readFields]
  simp only [Glyph.is, beq_self_eq_true, if_true, readString_quoted, bind, Except.bind,
    skipBlanks_char (show isBlank (.char ':') = false by decide), hvalue, hread hgood d depth fuel hdepth hfuel hrest]
  rcases hbehind with ⟨rfl, hend⟩ | ⟨next, hnext, hmore⟩
  · rw [hend]
    rfl
  · simp only [hnext, hmore]
    rfl

/-- So are the fields of an object. -/
theorem readFields_written (hl : l.IsBlank) (d fuel : Nat) (hread : ∀ f ∈ (n, v) :: fs, ReadsBack l f.2)
    (hgood : ∀ f ∈ (n, v) :: fs, f.2.firstBadNumber = none) (hdepth : ∀ f ∈ (n, v) :: fs, f.2.nesting ≤ depth)
    (hfuel : 2 * (v.written l (d + 1) ++ l.behind d "\x7d" (writtenFields l (d + 1) fs)).length ≤ fuel)
    (rest : Text) : readFields fuel depth
        (quoted n ++ l.colon ++ v.written l (d + 1) ++ (l.behind d "\x7d" (writtenFields l (d + 1) fs) ++ rest)) =
      .ok (plainFields ((n, v) :: fs), rest) := by
  induction fs generalizing n v fuel with
  | nil =>
    have hlen := length_behind_pos (.inr rfl : IsClosing "\x7d") l d []
    simp only [writtenFields, List.length_append] at hfuel
    obtain ⟨f, rfl⟩ : ∃ f, fuel = f + 1 := ⟨fuel - 1, by omega⟩
    exact readFields_field (v := v) (hread _ List.mem_cons_self) (hgood _ List.mem_cons_self)
      (hdepth _ List.mem_cons_self) (by omega) (stops_behind (.inr rfl) l d _ rest)
      (.inl ⟨rfl, skipBlanks_behind_nil hl (.inr rfl) d rest⟩)
  | cons f fs ih =>
    obtain ⟨m, w⟩ := f
    rw [List.forall_mem_cons] at hread hgood hdepth
    rw [writtenFields, behind_cons] at hfuel
    simp only [List.length_append, List.length_cons] at hfuel
    obtain ⟨f, rfl⟩ : ∃ f, fuel = f + 1 := ⟨fuel - 1, by omega⟩
    have hfs := ih f hread.2 hgood.2 hdepth.2 (by simp only [List.length_append]; omega)
    refine readFields_field (v := v) hread.1 hgood.1 hdepth.1 (by omega) (stops_behind (.inr rfl) l d _ rest) (.inr ?_)
    rw [writtenFields, behind_cons, List.cons_append]
    refine ⟨_, skipBlanks_char (by decide) _, ?_⟩
    rw [List.append_assoc, List.append_assoc, skipBlanks_newLine hl, List.append_assoc, List.append_assoc,
      quoted_append, skipBlanks_char (by decide), ← quoted_append, ← hfs]
    simp only [List.append_assoc]

theorem readValue_number (h : isNumber n = true) (hrest : Stops rest) (fuel depth : Nat) :
    readValue (fuel + 1) depth (n ++ rest) = .ok (.number n, rest) := by
  have hread : readNumber (n ++ rest) = .ok (.number n, rest) := by
    rw [readNumber, numberExtent_append h hrest]
  obtain ⟨c, t, rfl, hc⟩ := head_of_isNumber h
  have hdigit : (Glyph.is '-' (.char c) || isDigit (.char c)) = true := by
    rcases hc with rfl | hc
    · rfl
    · rw [isDigit, Glyph.seen, hc, Bool.or_true]
  have hne : ∀ {d : Char}, d ∈ ['n', 't', 'f', '"'] → Glyph.is d (.char c) = false := by
    intro d hd
    have hother : d ≠ '-' ∧ d.isDigit = false := by
      simp only [List.mem_cons, List.not_mem_nil, or_false] at hd
      rcases hd with rfl | rfl | rfl | rfl <;> decide
    refine beq_eq_false_iff_ne.mpr ?_
    rintro rfl
    rcases hc with hminus | hc
    · exact hother.1 hminus
    · rw [hother.2] at hc
      cases hc
  rw [List.cons_append] at hread ⊢
  unfold readValue
  simp only [hne (d := 'n') (by decide), hne (d := 't') (by decide), hne (d := 'f') (by decide),
    hne (d := '"') (by decide), hdigit, hread, if_true, Bool.false_eq_true, if_false]

theorem readValue_array {vs : List Json} (hrest : skipBlanks rest = .char c :: after) (hc : ']' ≠ c)
    (h : readItems fuel depth (.char c :: after) = .ok (vs, r)) :
    readValue (fuel + 1) (depth + 1) (.char '[' :: rest) = .ok (.array vs, r) := by
  have hdigit : isDigit (.char '[') = false := by decide
  unfold readValue
  simp [Glyph.is, hdigit, hrest, hc, h, Except.map]

theorem readValue_object (hrest : skipBlanks rest = .char c :: after) (hc : '\x7d' ≠ c)
    (h : readFields fuel depth (.char c :: after) = .ok (fs, r)) :
    readValue (fuel + 1) (depth + 1) (.char '\x7b' :: rest) = .ok (.object fs, r) := by
  have hdigit : isDigit (.char '\x7b') = false := by decide
  unfold readValue
  simp [Glyph.is, hdigit, hrest, hc, h, Except.map]

theorem length_written_pos (h : v.firstBadNumber = none) (l : Layout) (d : Nat) :
    0 < (v.written l d).length := by
  obtain ⟨c, t, ht, -⟩ := written_head h l d
  rw [ht]
  exact Nat.succ_pos _

/-- There is always fuel to look at the first glyph. -/
theorem readsBack_of_succ
    (h : v.firstBadNumber = none → ∀ (d depth fuel : Nat) {rest : Text}, v.nesting ≤ depth →
      2 * (v.written l d).length ≤ fuel + 1 → Stops rest →
        readValue (fuel + 1) depth (v.written l d ++ rest) = .ok (v.plain, rest)) : ReadsBack l v := by
  intro hgood d depth fuel rest hdepth hfuel hrest
  have hlen := length_written_pos hgood l d
  obtain ⟨f, rfl⟩ : ∃ f, fuel = f + 1 := ⟨fuel - 1, by omega⟩
  exact h hgood d depth f hdepth hfuel hrest

/-- A document that is laid out with white space is read as the value that it writes. -/
theorem readsBack (hl : l.IsBlank) (v : Json) : ReadsBack l v := by
  induction v using Json.induct with
  | null => exact readsBack_of_succ fun _ _ _ _ _ _ _ _ => rfl
  | bool b => cases b <;> exact readsBack_of_succ fun _ _ _ _ _ _ _ _ => rfl
  | number n =>
    refine readsBack_of_succ fun hgood _ depth fuel _ _ _ hrest => ?_
    exact readValue_number (isNumber_spelled hgood) hrest fuel depth
  | string s =>
    refine readsBack_of_succ fun _ _ _ fuel rest _ _ _ => ?_
    rw [written, quoted_append]
    change (readString _).map _ = _
    rw [readString_quoted]
    rfl
  | array items ih =>
    refine readsBack_of_succ fun hgood d depth fuel rest hdepth hfuel hrest => ?_
    rw [nesting] at hdepth
    obtain ⟨depth, rfl⟩ : ∃ k, depth = k + 1 := ⟨depth - 1, by omega⟩
    cases items with
    | nil => rfl
    | cons v vs =>
      have hgood := firstBadItem_eq_none.mp hgood
      obtain ⟨c, u, hu, hc⟩ := written_head (hgood v List.mem_cons_self) l (d + 1)
      rw [written, writtenItems, enclose_cons] at hfuel ⊢
      simp only [List.length_append] at hfuel
      have hopening : (("[" : String) : Text).length = 1 := rfl
      have hitems := readItems_written hl d fuel ih hgood
        (nestingItems_le.mp (Nat.le_of_succ_le_succ hdepth)) (by simp only [List.length_append]; omega) rest
      have hskip := skipBlanks_written hl (hgood v List.mem_cons_self) (d + 1) (d + 1)
        (l.behind d "]" (writtenItems l (d + 1) vs) ++ rest)
      rw [hu, List.cons_append] at hitems hskip
      simp only [List.append_assoc, hu]
      exact readValue_array hskip (hc.ne (by decide)) hitems
  | object fields ih =>
    refine readsBack_of_succ fun hgood d depth fuel rest hdepth hfuel hrest => ?_
    rw [nesting] at hdepth
    obtain ⟨depth, rfl⟩ : ∃ k, depth = k + 1 := ⟨depth - 1, by omega⟩
    rcases fields with _ | ⟨⟨n, v⟩, fs⟩
    · rfl
    · have hgood := firstBadField_eq_none.mp hgood
      rw [written, writtenFields, enclose_cons] at hfuel ⊢
      simp only [List.length_append] at hfuel
      have hopening : (("\x7b" : String) : Text).length = 1 := rfl
      have hfields := readFields_written hl d fuel ih hgood
        (nestingFields_le.mp (Nat.le_of_succ_le_succ hdepth)) (by simp only [List.length_append]; omega) rest
      simp only [List.append_assoc, quoted_append] at hfields ⊢
      refine readValue_object ?_ (by decide) hfields
      exact (skipBlanks_newLine hl _ _).trans (skipBlanks_char (by decide) _)

/-! ### Documents -/

theorem skipBlanks_document (h : v.firstBadNumber = none) (l : Layout) :
    ∃ c t, document l v = .char c :: t ∧ skipBlanks (document l v) = .char c :: t := by
  obtain ⟨c, t, ht, hc⟩ := written_head h l 0
  refine ⟨c, t ++ ("\n" : String), ?_, ?_⟩
  · rw [document, ht, List.cons_append]
  · rw [document, ht, List.cons_append, skipBlanks_char hc.isBlank]

/-- A document is read back as the plain form of its value. -/
theorem readFirst_document (hl : l.IsBlank) (hgood : v.firstBadNumber = none)
    (hdepth : v.nesting ≤ deepest) : readFirst (document l v) = .ok (v.plain, ("\n" : String)) := by
  obtain ⟨c, t, ht, hskip⟩ := skipBlanks_document hgood l
  rw [readFirst, hskip]
  dsimp only
  rw [← ht]
  refine readsBack hl v hgood 0 deepest _ hdepth ?_ (stops_cons.mpr (by decide))
  simp only [document, List.length_append]
  omega

/-! ### Depth and names -/

/-- A value whose objects have names without stray bytes. -/
inductive Named : Json → Prop where
  | null : Named null
  | bool (b : Bool) : Named (bool b)
  | number (n : Text) : Named (number n)
  | string (s : Text) : Named (string s)
  | array {items : List Json} (h : ∀ v ∈ items, Named v) : Named (array items)
  | object {fields : List (Text × Json)} (hnames : ∀ f ∈ fields, f.1.isClean = true) (h : ∀ f ∈ fields, Named f.2) :
    Named (object fields)

/-- What one reader reads has a property, and another reads the same. -/
def Follows (P : α → Prop) (a b : Except ReadError (α × Text)) : Prop :=
  ∀ x r, a = .ok (x, r) → P x ∧ b = .ok (x, r)

section Follows
variable {α β : Type} {P : α → Prop} {Q : β → Prop} {a a' : Except ReadError (α × Text)}

theorem follows_error (e : ReadError) : Follows P (.error e) a := by
  rintro x r ⟨⟩

theorem follows_self (h : ∀ {x r}, a = .ok (x, r) → P x) : Follows P a a := fun _ _ hx => ⟨h hx, hx⟩

theorem follows_ok {x : α} (h : P x) (r : Text) : Follows P (.ok (x, r)) (.ok (x, r)) := by
  rintro x r ⟨⟩
  exact ⟨h, rfl⟩

theorem follows_ite {b b' : Except ReadError (α × Text)} (c : Bool) (h : Follows P a b) (h' : Follows P a' b') :
    Follows P (if c then a else a') (if c then b else b') := by
  cases c
  · exact h'
  · exact h

theorem Follows.bind {k k' : α × Text → Except ReadError (β × Text)} (h : Follows P a a')
    (hk : ∀ x r, P x → Follows Q (k (x, r)) (k' (x, r))) : Follows Q (a >>= k) (a' >>= k') := by
  intro y r hy
  obtain ⟨⟨x, rest⟩, hx, hy⟩ := bind_eq_ok.mp hy
  obtain ⟨hP, hx⟩ := h x rest hx
  obtain ⟨hQ, hy⟩ := hk x rest hP y r hy
  exact ⟨hQ, bind_eq_ok.mpr ⟨_, hx, hy⟩⟩

theorem Follows.map {f : α → β} (h : Follows P a a') (hf : ∀ x, P x → Q (f x)) :
    Follows Q (a.map fun (x, r) => (f x, r)) (a'.map fun (x, r) => (f x, r)) := by
  intro y r hy
  obtain ⟨⟨x, rest⟩, hx, hy⟩ := map_eq_ok.mp hy
  cases hy
  obtain ⟨hP, hx⟩ := h _ _ hx
  exact ⟨hf x hP, map_eq_ok.mpr ⟨_, hx, rfl⟩⟩

end Follows

theorem isClean_joinParts (ps : List Part) : (joinParts ps).isClean = true := by
  fun_induction joinParts ps <;> simp_all [Text.isClean]

theorem isClean_readString {t s : Text} (h : readString t = .ok (s, r)) : s.isClean = true := by
  obtain ⟨ps, -, rfl⟩ := readString_eq_ok.mp h
  exact isClean_joinParts ps

/-- What is read is read as well where deeper nesting is allowed. -/
def Deepens (P : α → Prop) (read : Nat → Text → Except ReadError (α × Text)) : Prop :=
  ∀ {depth depth' : Nat}, depth ≤ depth' → ∀ t, Follows P (read depth t) (read depth' t)

section Deepens
variable (hvalue : Deepens Named (readValue fuel)) (hitems : Deepens (∀ v ∈ ·, Named v) (readItems fuel))
  (hfields : Deepens (∀ f ∈ ·, f.1.isClean = true ∧ f.2.Named) (readFields fuel))

include hvalue hitems in
theorem deepens_readItems : Deepens (∀ v ∈ ·, Named v) (readItems (fuel + 1)) := by
  intro depth depth' hle t
  rw [readItems, readItems]
  refine (hvalue hle t).bind fun v rest hv => ?_
  dsimp only
  cases skipBlanks rest with
  | nil => exact follows_error _
  | cons g after =>
    refine follows_ite _ (follows_ok (List.forall_mem_singleton.mpr hv) after) (follows_ite _ ?_ (follows_error _))
    exact (hitems hle _).bind fun vs r hvs => follows_ok (List.forall_mem_cons.mpr ⟨hv, hvs⟩) r

include hvalue hfields in
theorem deepens_readFields :
    Deepens (∀ f ∈ ·, f.1.isClean = true ∧ f.2.Named) (readFields (fuel + 1)) := by
  intro depth depth' hle t
  rw [readFields.eq_def, readFields.eq_def]
  dsimp only
  cases t with
  | nil => exact follows_error _
  | cons q t =>
    refine follows_ite _ ((follows_self isClean_readString).bind fun name rest hname => ?_) (follows_error _)
    dsimp only
    cases skipBlanks rest with
    | nil => exact follows_error _
    | cons c rest =>
      refine follows_ite _ ((hvalue hle _).bind fun v rest hv => ?_) (follows_error _)
      dsimp only
      cases skipBlanks rest with
      | nil => exact follows_error _
      | cons g after =>
        refine follows_ite _ (follows_ok (List.forall_mem_singleton.mpr ⟨hname, hv⟩) after)
          (follows_ite _ ?_ (follows_error _))
        exact (hfields hle _).bind fun fs r hfs => follows_ok (List.forall_mem_cons.mpr ⟨⟨hname, hv⟩, hfs⟩) r

theorem follows_word (hv : v.Named) (word : List Char) (t : Text) :
    Follows Named ((readWord word t).map fun r => (v, r)) ((readWord word t).map fun r => (v, r)) :=
  follows_self fun h => by
    obtain ⟨_, -, h⟩ := map_eq_ok.mp h
    cases h
    exact hv

theorem follows_number (t : Text) : Follows Named (readNumber t) (readNumber t) :=
  follows_self fun h => by
    unfold readNumber at h
    split at h <;> cases h
    exact .number _

include hitems hfields in
theorem deepens_readValue : Deepens Named (readValue (fuel + 1)) := by
  intro depth depth' hle t
  cases t with
  | nil => exact follows_error _
  | cons g rest =>
    rw [readValue.eq_def, readValue.eq_def]
    dsimp only
    refine follows_ite _ (follows_word .null _ _) (follows_ite _ (follows_word (.bool true) _ _)
      (follows_ite _ (follows_word (.bool false) _ _) (follows_ite _ ?_ (follows_ite _ (follows_number _) ?_))))
    · exact (follows_self isClean_readString).map fun s _ => .string s
    -- only lists and objects look at the depth
    cases depth with
    | zero => exact follows_ite _ (follows_error _) (follows_ite _ (follows_error _) (follows_error _))
    | succ depth =>
      obtain ⟨deeper, rfl⟩ : ∃ k, depth' = k + 1 := ⟨depth' - 1, by omega⟩
      have hle : depth ≤ deeper := Nat.le_of_succ_le_succ hle
      dsimp only
      cases skipBlanks rest with
      | nil => exact follows_ite _ (follows_error _) (follows_ite _ (follows_error _) (follows_error _))
      | cons h after =>
        refine follows_ite _ (follows_ite _ (follows_ok (.array (by simp)) after) ?_)
          (follows_ite _ (follows_ite _ (follows_ok (.object (by simp) (by simp)) after) ?_) (follows_error _))
        · exact (hitems hle _).map fun vs hvs => .array hvs
        · exact (hfields hle _).map fun fs hfs => .object (fun f hf => (hfs f hf).1) fun f hf => (hfs f hf).2

end Deepens

/-- With more fuel and more depth a value is read as before. -/
theorem deepens (fuel : Nat) :
    Deepens Named (readValue fuel) ∧ Deepens (∀ v ∈ ·, Named v) (readItems fuel) ∧
      Deepens (∀ f ∈ ·, f.1.isClean = true ∧ f.2.Named) (readFields fuel) := by
  induction fuel with
  | zero => exact ⟨fun _ _ => follows_error _, fun _ _ => follows_error _, fun _ _ => follows_error _⟩
  | succ fuel ih =>
    obtain ⟨hvalue, hitems, hfields⟩ := ih
    exact ⟨deepens_readValue hitems hfields, deepens_readItems hvalue hitems, deepens_readFields hvalue hfields⟩

/-- A document is read as the value that it writes or not at all, however deep it is. -/
theorem plain_of_readFirst (hl : l.IsBlank) {w : Json} (hgood : v.firstBadNumber = none)
    (h : readFirst (document l v) = .ok (w, rest)) : w = v.plain := by
  obtain ⟨c, t, ht, hskip⟩ := skipBlanks_document hgood l
  rw [readFirst, hskip] at h
  dsimp only at h
  rw [← ht] at h
  obtain ⟨-, hdeep⟩ := (deepens _).1 (Nat.le_max_left deepest v.nesting) _ _ _ h
  have hwritten := readsBack hl v hgood 0 _ (2 * (document l v).length + 2)
    (Nat.le_max_right deepest v.nesting) (by simp only [document, List.length_append]; omega)
    (stops_cons (g := .char '\n') (t := []).mpr (by decide))
  cases hdeep.symm.trans hwritten
  rfl

end Anadil.Json
