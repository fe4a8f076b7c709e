import Anadil.Json.Difference
import Anadil.Proofs.Json.Reading
import Anadil.Proofs.Token.Spacing

/-! # What a comparison sees

Two values in normal form have no difference if and only if they are equal once the positions and the
fields that are null are left out of every object (`Json.essence`). -/

namespace Anadil

variable {t a b n : Text} {f : Text × Json} {fs : List (Text × Json)} {v : Json}

/-! ### The order of names -/

namespace Text

theorem isClean_iff : t.isClean = true ↔ ∃ cs : List Char, t = cs.map .char := by
  constructor
  · intro h
    induction t with
    | nil => exact ⟨[], rfl⟩
    | cons g t ih =>
      simp only [isClean, List.all_cons, Bool.and_eq_true] at h
      obtain ⟨cs, rfl⟩ := ih h.2
      cases g with
      | char c => exact ⟨c :: cs, rfl⟩
      | byte b => cases h.1
  · rintro ⟨cs, rfl⟩
    simp [isClean]

theorem clean_eq_map (t : Text) : t.clean = t.chars.map .char := by
  simp [clean, chars]

theorem isClean_clean (t : Text) : t.clean.isClean = true := isClean_iff.mpr ⟨t.chars, clean_eq_map t⟩

theorem clean_of_isClean (h : t.isClean = true) : t.clean = t := by
  obtain ⟨cs, rfl⟩ := isClean_iff.mp h
  simp [clean, Glyph.seen, Function.comp_def]

theorem ofBytes_of_isClean (h : t.isClean = true) : ofBytes t.bytes = t := by
  obtain ⟨cs, rfl⟩ := isClean_iff.mp h
  exact ofBytes_chars cs

theorem before_irrefl (a : Text) : before a a = false := by
  simp [before]

theorem before_trans {c : Text} (hab : before a b = true) (hbc : before b c = true) : before a c = true := by
  simp only [before, decide_eq_true_eq] at *
  exact List.lt_trans hab hbc

theorem before_asymm (h : before a b = true) : before b a = false := by
  refine Bool.eq_false_iff.mpr fun h' => ?_
  have hself := before_trans h h'
  rw [before_irrefl] at hself
  cases hself

theorem before_ne (h : before a b = true) : a ≠ b := by
  rintro rfl
  rw [before_irrefl] at h
  cases h

theorem before_or_before_of_bytes (h : a.bytes ≠ b.bytes) : before a b = true ∨ before b a = true := by
  simp only [before, decide_eq_true_eq]
  rcases Decidable.em (a.bytes < b.bytes) with hlt | hge
  · exact .inl hlt
  · rcases List.le_iff_lt_or_eq.mp (List.not_lt.mp hge) with hgt | heq
    · exact .inr hgt
    · exact absurd heq.symm h

theorem before_or_before (ha : a.isClean = true) (hb : b.isClean = true) (h : a ≠ b) :
    before a b = true ∨ before b a = true := by
  refine before_or_before_of_bytes fun heq => h ?_
  rw [← ofBytes_of_isClean ha, ← ofBytes_of_isClean hb, heq]

end Text

namespace Json

/-! ### Fields in order -/

/-- Fields in the strict order of their names, which have no stray bytes. -/
structure InOrder (fields : List (Text × Json)) : Prop where
  clean : ∀ f ∈ fields, f.1.isClean = true
  sorted : fields.Pairwise fun f g => Text.before f.1 g.1 = true

theorem inOrder_nil : InOrder [] := ⟨fun _ h => absurd h List.not_mem_nil, .nil⟩

theorem inOrder_cons :
    InOrder (f :: fs) ↔ f.1.isClean = true ∧ (∀ g ∈ fs, Text.before f.1 g.1 = true) ∧ InOrder fs := by
  constructor
  · rintro ⟨hclean, hsorted⟩
    rw [List.forall_mem_cons] at hclean
    rw [List.pairwise_cons] at hsorted
    exact ⟨hclean.1, hsorted.1, hclean.2, hsorted.2⟩
  · rintro ⟨hclean, hfirst, hfs⟩
    exact ⟨List.forall_mem_cons.mpr ⟨hclean, hfs.clean⟩, List.pairwise_cons.mpr ⟨hfirst, hfs.sorted⟩⟩

theorem mem_putField (h : f ∈ putField n v fs) : f = (n, v) ∨ f ∈ fs := by
  induction fs with
  | nil => exact .inl (List.mem_singleton.mp h)
  | cons g fs ih =>
    rw [putField] at h
    split at h
    · exact (List.mem_cons.mp h).imp_right (List.mem_cons_of_mem g)
    · split at h
      · exact List.mem_cons.mp h
      · rcases List.mem_cons.mp h with rfl | h
        · exact .inr List.mem_cons_self
        · exact (ih h).imp_right (List.mem_cons_of_mem g)

theorem InOrder.putField (h : InOrder fs) (hn : n.isClean = true) (v : Json) : InOrder (putField n v fs) := by
  induction fs with
  | nil => exact inOrder_cons.mpr ⟨hn, fun _ h => absurd h List.not_mem_nil, inOrder_nil⟩
  | cons g fs ih =>
    obtain ⟨hg, hfirst, hfs⟩ := inOrder_cons.mp h
    rw [Json.putField]
    split
    · rename_i heq
      exact inOrder_cons.mpr ⟨hn, heq ▸ hfirst, hfs⟩
    · split
      · rename_i hbefore
        refine inOrder_cons.mpr ⟨hn, List.forall_mem_cons.mpr ⟨hbefore, ?_⟩, h⟩
        exact fun k hk => Text.before_trans hbefore (hfirst k hk)
      · rename_i hne hbefore
        have hafter := (Text.before_or_before hg hn hne).resolve_right hbefore
        refine inOrder_cons.mpr ⟨hg, fun k hk => ?_, ih hfs⟩
        rcases mem_putField hk with rfl | hk
        · exact hafter
        · exact hfirst k hk

/-- Fields that are put one by one come in order, and none is made up. -/
theorem foldl_putField_spec {rest sorted : List (Text × Json)} (hsorted : InOrder sorted)
    (h : ∀ f ∈ rest, f.1.isClean = true) :
    InOrder (rest.foldl (fun sorted f => putField f.1 f.2 sorted) sorted) ∧
      ∀ f ∈ rest.foldl (fun sorted f => putField f.1 f.2 sorted) sorted, f ∈ sorted ∨ f ∈ rest := by
  induction rest generalizing sorted with
  | nil => exact ⟨hsorted, fun f hf => .inl hf⟩
  | cons g rest ih =>
    rw [List.forall_mem_cons] at h
    obtain ⟨horder, hmem⟩ := ih (hsorted.putField h.1 g.2) h.2
    refine ⟨horder, fun f hf => ?_⟩
    rcases hmem f hf with hf | hf
    · rcases mem_putField hf with rfl | hf
      · exact .inr List.mem_cons_self
      · exact .inl hf
    · exact .inr (List.mem_cons_of_mem g hf)

theorem sortFields_spec (h : ∀ f ∈ fs, f.1.isClean = true) :
    InOrder (sortFields fs) ∧ ∀ f ∈ sortFields fs, f ∈ fs := by
  obtain ⟨horder, hmem⟩ := foldl_putField_spec inOrder_nil h
  exact ⟨horder, fun f hf => (hmem f hf).resolve_left List.not_mem_nil⟩

/-- A value whose objects all have their fields in order. -/
inductive Orderly : Json → Prop where
  | null : Orderly null
  | bool (b : Bool) : Orderly (bool b)
  | number (n : Text) : Orderly (number n)
  | string (s : Text) : Orderly (string s)
  | array {items : List Json} (h : ∀ v ∈ items, Orderly v) : Orderly (array items)
  | object {fields : List (Text × Json)} (horder : InOrder fields) (h : ∀ f ∈ fields, Orderly f.2) :
    Orderly (object fields)

theorem normalItems_eq (vs : List Json) : normalItems vs = vs.map normal := by
  induction vs with
  | nil => rfl
  | cons v vs ih => rw [normalItems, ih, List.map_cons]

theorem normalFields_eq (fs : List (Text × Json)) : normalFields fs = fs.map fun f => (f.1, f.2.normal) := by
  induction fs with
  | nil => rfl
  | cons f fs ih => rw [normalFields, ih, List.map_cons]

theorem Named.orderly (h : v.Named) : v.normal.Orderly := by
  induction h with
  | null => exact .null
  | bool b => exact .bool b
  | number n => exact .number n
  | string s => exact .string s
  | array _ ih =>
    rw [normal, normalItems_eq]
    exact .array (List.forall_mem_map.mpr ih)
  | @object fields hnames _ ih =>
    rw [normal, normalFields_eq]
    obtain ⟨horder, hmem⟩ := sortFields_spec
      (List.forall_mem_map.mpr hnames : ∀ f ∈ fields.map fun f => (f.1, f.2.normal), f.1.isClean = true)
    refine .object horder fun f hf => ?_
    obtain ⟨g, hg, rfl⟩ := List.mem_map.mp (hmem f hf)
    exact ih g hg

theorem named_plain (v : Json) : v.plain.Named := by
  induction v using Json.induct with
  | null => exact .null
  | bool b => exact .bool b
  | number n => exact .number _
  | string s => exact .string _
  | array items ih =>
    rw [plain, plainItems_eq]
    exact .array (List.forall_mem_map.mpr ih)
  | object fields ih =>
    rw [plain, plainFields_eq]
    exact .object (List.forall_mem_map.mpr fun f _ => Text.isClean_clean f.1) (List.forall_mem_map.mpr ih)

theorem orderly_normal_plain (v : Json) : v.plain.normal.Orderly := (named_plain v).orderly

/-! ### Essences -/

mutual

/-- A value without the fields that a comparison passes over: positions, and those that are null. -/
def essence : Json → Json
  | null => null
  | bool b => bool b
  | number n => number n
  | string s => string s
  | array items => array (essenceItems items)
  | object fields => object (essenceFields fields)

/-- `Json.essence` of each value. -/
def essenceItems : List Json → List Json
  | [] => []
  | v :: rest => v.essence :: essenceItems rest

/-- The fields that count, with the essences of their values. -/
def essenceFields : List (Text × Json) → List (Text × Json)
  | [] => []
  | (n, v) :: rest =>
    if isPosition n || sameLeaf null v then essenceFields rest else (n, v.essence) :: essenceFields rest

end

theorem sameLeaf_null : sameLeaf null v = true ↔ v = null := by
  cases v <;> simp [sameLeaf]

theorem essence_eq_null : v.essence = null ↔ v = null := by
  cases v <;> simp [essence]

theorem essenceFields_position (h : isPosition n = true) (v : Json) (fs : List (Text × Json)) :
    essenceFields ((n, v) :: fs) = essenceFields fs := by
  simp [essenceFields, h]

theorem essenceFields_null (n : Text) (fs : List (Text × Json)) :
    essenceFields ((n, null) :: fs) = essenceFields fs := by
  simp [essenceFields, sameLeaf]

theorem essenceFields_kept (hn : isPosition n = false) (hv : v ≠ null)
    (fs : List (Text × Json)) : essenceFields ((n, v) :: fs) = (n, v.essence) :: essenceFields fs := by
  have hv : sameLeaf null v = false := by rwa [← Bool.not_eq_true, sameLeaf_null]
  simp [essenceFields, hn, hv]

theorem mem_essenceFields (h : f ∈ essenceFields fs) : ∃ g ∈ fs, g.1 = f.1 := by
  induction fs with
  | nil => cases h
  | cons g fs ih =>
    rw [essenceFields] at h
    split at h
    · obtain ⟨k, hk, heq⟩ := ih h
      exact ⟨k, List.mem_cons_of_mem g hk, heq⟩
    · rcases List.mem_cons.mp h with rfl | h
      · exact ⟨g, List.mem_cons_self, rfl⟩
      · obtain ⟨k, hk, heq⟩ := ih h
        exact ⟨k, List.mem_cons_of_mem g hk, heq⟩

theorem name_not_mem (h : ∀ f ∈ fs, Text.before n f.1 = true) (v : Json) : (n, v) ∉ essenceFields fs := by
  intro hmem
  obtain ⟨g, hg, heq⟩ := mem_essenceFields hmem
  exact Text.before_ne (h g hg) heq.symm

/-- Fields of one name in front of fields behind it count alike if they have the same essence. -/
theorem essenceFields_cons_inj {w : Json} {gs : List (Text × Json)}
    (hfs : ∀ f ∈ fs, Text.before n f.1 = true) (hgs : ∀ g ∈ gs, Text.before n g.1 = true) :
    essenceFields ((n, v) :: fs) = essenceFields ((n, w) :: gs) ↔
      (isPosition n = true ∨ v.essence = w.essence) ∧ essenceFields fs = essenceFields gs := by
  cases hn : isPosition n with
  | true => simp [essenceFields_position hn]
  | false =>
    rcases Classical.em (v = null) with rfl | hv <;> rcases Classical.em (w = null) with rfl | hw
    · simp [essenceFields_null]
    · rw [essenceFields_null, essenceFields_kept hn hw]
      constructor
      · intro h
        exact absurd (h ▸ List.mem_cons_self) (name_not_mem hfs w.essence)
      · rintro ⟨h | h, -⟩
        · cases h
        · exact absurd (essence_eq_null.mp h.symm) hw
    · rw [essenceFields_null, essenceFields_kept hn hv]
      constructor
      · intro h
        exact absurd (h ▸ List.mem_cons_self) (name_not_mem hgs v.essence)
      · rintro ⟨h | h, -⟩
        · cases h
        · exact absurd (essence_eq_null.mp h) hv
    · rw [essenceFields_kept hn hv, essenceFields_kept hn hw]
      simp

/-! ### Differences -/

/-- No difference is found to any other value exactly if both have the same essence. -/
def Compares (v : Json) : Prop :=
  v.Orderly → ∀ {w : Json}, w.Orderly → ∀ path, differenceAt path v w = none ↔ v.essence = w.essence

theorem compares_null : Compares null := by
  intro _ w _ path
  cases w <;> simp [differenceAt, sameLeaf, essence]

/-- Lists do not differ if they have one essence. -/
theorem itemsDifference_eq_none {path : Text} {vs ws : List Json} (h : ∀ v ∈ vs, Compares v)
    (hvs : ∀ v ∈ vs, v.Orderly) (hws : ∀ w ∈ ws, w.Orderly) (i : Nat) :
    itemsDifference path i vs ws = none ∧ vs.length = ws.length ↔ essenceItems vs = essenceItems ws := by
  induction vs generalizing ws i with
  | nil => cases ws <;> simp [itemsDifference, essenceItems]
  | cons v vs ih =>
    cases ws with
    | nil => simp [essenceItems]
    | cons w ws =>
      rw [List.forall_mem_cons] at h hvs hws
      rw [itemsDifference, essenceItems, essenceItems, Option.or_eq_none_iff, h.1 hvs.1 hws.1, List.cons.injEq,
        ← ih h.2 hvs.2 hws.2 (i + 1), List.length_cons, List.length_cons, Nat.add_right_cancel_iff, and_assoc]

/-! ### Fields side by side -/

section Fields
variable {path : Text} {w : Json} {gs : List (Text × Json)}

/-- The first difference that two objects have under a name. -/
def fieldDifference (path n : Text) (v w : Json) : Option Mismatch :=
  if isPosition n then none else differenceAt (path ++ "." ++ n) v w

theorem firstExtra_cons (path n : Text) (v : Json) (fs : List (Text × Json)) :
    firstExtra path ((n, v) :: fs) = (fieldDifference path n null v).or (firstExtra path fs) := by
  rw [firstExtra, fieldDifference, differenceAt]
  cases isPosition n <;> cases sameLeaf null v <;> rfl

theorem fieldsDifference_same :
    fieldsDifference path ((n, v) :: fs) ((n, w) :: gs) =
      (fieldDifference path n v w).or (fieldsDifference path fs gs) := by
  rw [fieldsDifference]
  simp [Text.before_irrefl, firstExtra, fieldDifference]

theorem fieldsDifference_left (h : ∀ g ∈ gs, Text.before n g.1 = true) :
    fieldsDifference path ((n, v) :: fs) gs = (fieldDifference path n v null).or (fieldsDifference path fs gs) := by
  rw [fieldsDifference]
  rcases gs with _ | ⟨⟨m, w⟩, gs⟩
  · rfl
  · have hm : Text.before n m = true := h _ List.mem_cons_self
    have hnot : Text.before m n = false := Text.before_asymm hm
    simp [hnot, (Text.before_ne hm).symm, firstExtra, fieldDifference]

theorem fieldsDifference_right (h : ∀ f ∈ fs, Text.before n f.1 = true) :
    fieldsDifference path fs ((n, w) :: gs) = (fieldDifference path n null w).or (fieldsDifference path fs gs) := by
  rcases fs with _ | ⟨⟨m, v⟩, fs⟩
  · exact firstExtra_cons path n w gs
  · have hm : Text.before n m = true := h _ List.mem_cons_self
    rw [fieldsDifference, fieldsDifference]
    simp [hm, firstExtra_cons, Option.or_assoc]

/-- Two lists of fields, walked through by the names of both: the least name is in one of them or in both. -/
inductive Aligned : List (Text × Json) → List (Text × Json) → Prop where
  | nil : Aligned [] []
  | both {fs gs : List (Text × Json)} (n : Text) (v w : Json) (hfs : ∀ f ∈ fs, Text.before n f.1 = true)
      (hgs : ∀ g ∈ gs, Text.before n g.1 = true) (h : Aligned fs gs) : Aligned ((n, v) :: fs) ((n, w) :: gs)
  | left {fs gs : List (Text × Json)} (n : Text) (v : Json) (hfs : ∀ f ∈ fs, Text.before n f.1 = true)
      (hgs : ∀ g ∈ gs, Text.before n g.1 = true) (h : Aligned fs gs) : Aligned ((n, v) :: fs) gs
  | right {fs gs : List (Text × Json)} (n : Text) (w : Json) (hfs : ∀ f ∈ fs, Text.before n f.1 = true)
      (hgs : ∀ g ∈ gs, Text.before n g.1 = true) (h : Aligned fs gs) : Aligned fs ((n, w) :: gs)

theorem InOrder.aligned (hfs : InOrder fs) (hgs : InOrder gs) : Aligned fs gs := by
  induction fs generalizing gs with
  | nil =>
    induction gs with
    | nil => exact .nil
    | cons g gs ih =>
      obtain ⟨-, hfirst, hgs⟩ := inOrder_cons.mp hgs
      exact .right g.1 g.2 (fun _ h => absurd h List.not_mem_nil) hfirst (ih hgs)
  | cons f fs ihf =>
    obtain ⟨hf, hfirst, hfs'⟩ := inOrder_cons.mp hfs
    induction gs with
    | nil => exact .left f.1 f.2 hfirst (fun _ h => absurd h List.not_mem_nil) (ihf hfs' hgs)
    | cons g gs ihg =>
      obtain ⟨hg, hfirst', hgs'⟩ := inOrder_cons.mp hgs
      by_cases heq : f.1 = g.1
      · obtain ⟨n, v⟩ := f
        obtain ⟨m, w⟩ := g
        obtain rfl : n = m := heq
        exact .both n v w hfirst hfirst' (ihf hfs' hgs')
      · rcases Text.before_or_before hf hg heq with hlt | hgt
        · refine .left f.1 f.2 hfirst (List.forall_mem_cons.mpr ⟨hlt, fun k hk => ?_⟩) (ihf hfs' hgs)
          exact Text.before_trans hlt (hfirst' k hk)
        · refine .right g.1 g.2 (List.forall_mem_cons.mpr ⟨hgt, fun k hk => ?_⟩) hfirst' (ihg hgs')
          exact Text.before_trans hgt (hfirst k hk)

end Fields

/-- Fields in order do not differ if they have one essence. -/
theorem fieldsDifference_eq_none {path : Text} {gs : List (Text × Json)} (hwalk : Aligned fs gs)
    (h : ∀ f ∈ fs, Compares f.2) (hvalues : ∀ f ∈ fs, f.2.Orderly) (hvalues' : ∀ g ∈ gs, g.2.Orderly) :
    fieldsDifference path fs gs = none ↔ essenceFields fs = essenceFields gs := by
  have hfield : ∀ {n v w}, Compares v → v.Orderly → w.Orderly →
      (fieldDifference path n v w = none ↔ isPosition n = true ∨ v.essence = w.essence) := by
    intro n v w hcompares hv hw
    rw [fieldDifference, ← hcompares hv hw (path ++ "." ++ n)]
    cases isPosition n <;> simp
  induction hwalk with
  | nil => simp [fieldsDifference, firstExtra]
  | both n v w hfs hgs _ ih =>
    rw [List.forall_mem_cons] at h hvalues hvalues'
    rw [fieldsDifference_same, Option.or_eq_none_iff, hfield h.1 hvalues.1 hvalues'.1,
      essenceFields_cons_inj hfs hgs]
    exact and_congr_right fun _ => ih h.2 hvalues.2 hvalues'.2
  | @left fs gs n v hfs hgs _ ih =>
    rw [List.forall_mem_cons] at h hvalues
    rw [fieldsDifference_left hgs, Option.or_eq_none_iff, hfield h.1 hvalues.1 .null, ← essenceFields_null n gs,
      essenceFields_cons_inj hfs hgs]
    exact and_congr_right fun _ => ih h.2 hvalues.2 hvalues'
  | @right fs gs n w hfs hgs _ ih =>
    rw [List.forall_mem_cons] at hvalues'
    rw [fieldsDifference_right hfs, Option.or_eq_none_iff, hfield compares_null .null hvalues'.1,
      ← essenceFields_null n fs, essenceFields_cons_inj hfs hgs]
    exact and_congr_right fun _ => ih h hvalues hvalues'.2

theorem compares (v : Json) : Compares v := by
  induction v using Json.induct with
  | null => exact compares_null
  | bool b => intro _ w _ path; cases w <;> simp [differenceAt, sameLeaf, essence]
  | number n => intro _ w _ path; cases w <;> simp [differenceAt, sameLeaf, essence]
  | string s => intro _ w _ path; cases w <;> simp [differenceAt, sameLeaf, essence]
  | array items ih =>
    intro hv w hw path
    cases hv with
    | array hitems =>
      cases hw with
      | array hothers =>
        rw [differenceAt, essence, essence, Option.or_eq_none_iff, array.injEq,
          ← itemsDifference_eq_none ih hitems hothers 0]
        refine and_congr_right fun _ => ?_
        split <;> simp [*]
      | _ => simp [differenceAt, essence]
  | object fields ih =>
    intro hv w hw path
    cases hv with
    | object horder hfields =>
      cases hw with
      | object horder' hothers =>
        rw [differenceAt, essence, essence, object.injEq]
        exact fieldsDifference_eq_none (horder.aligned horder') ih hfields hothers
      | _ => simp [differenceAt, essence]

/-- Two orderly values have no difference if and only if they have the same essence. -/
theorem difference_eq_none {w : Json} (hv : v.Orderly) (hw : w.Orderly) :
    difference v w = none ↔ v.essence = w.essence := compares v hv hw "$"

end Json

end Anadil
