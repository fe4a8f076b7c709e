import Anadil.Text.Normal

/-! # What normal form C makes of names

Normal form C takes characters apart and puts others together, but a name stays one (`normalize_word`).
The tables are looked through for this once. -/

namespace Anadil.Text

/-- The code points of runs, one by one. -/
def Ranges.points (rs : Ranges) : List Nat := rs.flatMap fun (first, last) => List.range' first (last + 1 - first)

theorem Ranges.mem_points {rs : Ranges} {n : Nat} (h : rs.has n = true) : n ∈ rs.points := by
  induction rs with
  | nil => cases h
  | cons r rs ih =>
    obtain ⟨first, last⟩ := r
    simp only [has] at h
    rw [points, List.flatMap_cons, List.mem_append]
    split at h
    · cases h
    split at h
    · exact .inl (List.mem_range'_1.mpr (by omega))
    · exact .inr (ih h)

/-! ### Code points of names -/

/-- A code point at which Python starts a word: a letter of ASCII, an underscore, or any character beyond ASCII. -/
def isStartPoint (n : Nat) : Bool :=
  (0x41 ≤ n && n ≤ 0x5A) || n == 0x5F || (0x61 ≤ n && n ≤ 0x7A) ||
    (0x80 ≤ n && n < 0xD800) || (0xDFFF < n && n < 0x110000)

/-- A code point that Python takes for a part of a word. -/
def isWordPoint (n : Nat) : Bool := (0x30 ≤ n && n ≤ 0x39) || isStartPoint n

/-- The characters beyond ASCII that stand for a sign of ASCII. -/
def foldedSigns : List Nat := [0x037E, 0x1FEF, 0x2260, 0x226E, 0x226F]

/-- A code point that starts a word and does not stand for a sign. -/
def isSafe (n : Nat) : Bool := isStartPoint n && !foldedSigns.contains n

variable {n m a b c : Nat}

theorem isStartPoint_iff : isStartPoint n = true ↔ (0x41 ≤ n ∧ n ≤ 0x5A) ∨ n = 0x5F ∨ (0x61 ≤ n ∧ n ≤ 0x7A) ∨
    (0x80 ≤ n ∧ n < 0xD800) ∨ (0xDFFF < n ∧ n < 0x110000) := by
  simp only [isStartPoint, Bool.or_eq_true, Bool.and_eq_true, decide_eq_true_eq, beq_iff_eq, or_assoc]

theorem isWordPoint_iff : isWordPoint n = true ↔ (0x30 ≤ n ∧ n ≤ 0x39) ∨ isStartPoint n = true := by
  simp only [isWordPoint, Bool.or_eq_true, Bool.and_eq_true, decide_eq_true_eq]

theorem isStartPoint_of_isSafe (h : isSafe n = true) : isStartPoint n = true := by
  simp only [isSafe, Bool.and_eq_true] at h
  exact h.1

/-! ### Tables -/

/-- A pair stands for code points of names, unless its sign is folded. -/
def pairSafe : Nat × Nat × Nat → Bool
  | (c, a, b) => isStartPoint c && isStartPoint b && (foldedSigns.contains c || isSafe a)

/-- A run stands for code points of names, unless its sign is folded. -/
def runSafe : Nat × Nat × Nat → Bool
  | (first, last, target) =>
    if first = last then foldedSigns.contains first || isSafe target
    else foldedSigns.all (fun s => s < target || target + (last - first) < s) &&
      0x80 ≤ target && (target + (last - first) < 0xD800 ||
        (0xDFFF < target && target + (last - first) < 0x110000))

/-- No entry of a table makes a sign of a code point that is safe. -/
theorem tables_safe : ((composites ++ splits).all pairSafe && singletons.all runSafe) = true ∧
    (ideographs.all fun run => run.2.all isSafe) = true := by
  decide +kernel

theorem pairSafe_of_mem {entry : Nat × Nat × Nat} (h : entry ∈ composites ++ splits) :
    pairSafe entry = true :=
  List.all_eq_true.mp (Bool.and_eq_true_iff.mp tables_safe.1).1 entry h

theorem runSafe_of_mem {entry : Nat × Nat × Nat} (h : entry ∈ singletons) : runSafe entry = true :=
  List.all_eq_true.mp (Bool.and_eq_true_iff.mp tables_safe.1).2 entry h

theorem mem_of_pairIn? {table : List (Nat × Nat × Nat)} (h : pairIn? table n = some (a, b)) : (n, a, b) ∈ table := by
  obtain ⟨⟨c, x, y⟩, hfind, hpair⟩ := Option.map_eq_some_iff.mp h
  obtain rfl : c = n := by simpa using List.find?_some hfind
  cases hpair
  exact List.mem_of_find?_eq_some hfind

theorem mem_of_singleIn? {table : List (Nat × Nat × Nat)} (h : singleIn? table n = some m) :
    ∃ first last target, (first, last, target) ∈ table ∧ first ≤ n ∧ n ≤ last ∧ m = target + (n - first) := by
  induction table with
  | nil => simp [singleIn?] at h
  | cons entry rest ih =>
    obtain ⟨first, last, target⟩ := entry
    simp only [singleIn?] at h
    split at h
    · cases h
    split at h
    · cases h
      exact ⟨first, last, target, List.mem_cons_self, by omega, ‹_›, rfl⟩
    · obtain ⟨f, l, t, hmem, hn⟩ := ih h
      exact ⟨f, l, t, List.mem_cons_of_mem _ hmem, hn⟩

theorem listedIn?_induct {P : Nat → Prop} {table : List (Nat × List Nat)} (htable : ∀ run ∈ table, ∀ m ∈ run.2, P m)
    (h : listedIn? table n = some m) : P m := by
  induction table with
  | nil => cases h
  | cons run rest ih =>
    rw [List.forall_mem_cons] at htable
    rw [listedIn?] at h
    split at h
    · cases h
    · rcases Option.or_eq_some_iff.mp h with h | ⟨-, h⟩
      · exact htable.1 m (List.mem_of_getElem? h)
      · exact ih htable.2 h

theorem pair?_safe (h : pair? n = some (a, b)) (hn : isSafe n = true) :
    isSafe a = true ∧ isStartPoint b = true := by
  have hpair : pairSafe (n, a, b) = true := by
    simp only [pair?, Option.or_eq_some_iff] at h
    rcases h with h | ⟨-, h⟩
    · exact pairSafe_of_mem (List.mem_append_left _ (mem_of_pairIn? h))
    · exact pairSafe_of_mem (List.mem_append_right _ (mem_of_pairIn? h))
  simp only [isSafe, Bool.and_eq_true, Bool.not_eq_true'] at hn
  simp only [pairSafe, Bool.and_eq_true, Bool.or_eq_true, hn.2, Bool.false_eq_true, false_or] at hpair
  exact ⟨hpair.2, hpair.1.2⟩

theorem single?_safe (h : single? n = some m) (hn : isSafe n = true) : isSafe m = true := by
  simp only [single?] at h
  split at h
  rotate_left
  · refine listedIn?_induct (P := (isSafe · = true)) (fun run hrun m hm => ?_) h
    exact List.all_eq_true.mp (List.all_eq_true.mp tables_safe.2 run hrun) m hm
  obtain ⟨first, last, target, hmem, hfirst, hlast, rfl⟩ := mem_of_singleIn? h
  have hrun := runSafe_of_mem hmem
  simp only [runSafe] at hrun
  split at hrun
  · obtain rfl : n = first := by omega
    simp only [isSafe, Bool.and_eq_true, Bool.not_eq_true'] at hn
    simpa only [hn.2, Bool.false_or, Nat.sub_self, Nat.add_zero] using hrun
  · simp only [isSafe, isStartPoint, foldedSigns, List.all_cons, List.all_nil, List.contains_cons,
      Bool.and_eq_true, Bool.or_eq_true, decide_eq_true_eq, Bool.not_eq_true', Bool.or_eq_false_iff,
      beq_eq_false_iff_ne, beq_iff_eq, List.contains_nil, ne_eq, and_true] at hrun ⊢
    omega

/-! ### Taking apart -/

theorem jamo?_start {js : List Nat} (h : jamo? n = some js) :
    ∀ m ∈ js, isStartPoint m = true := by
  have hbeyond : ∀ m, 0x1100 ≤ m → m < 0xD800 → isStartPoint m = true := by
    intro m hlow hhigh
    rw [isStartPoint_iff]
    omega
  simp only [jamo?] at h
  split at h
  · rename_i hn
    have hlead : 0x1100 + (n - 0xAC00) / 588 < 0xD800 := by omega
    have hvowel : 0x1161 + (n - 0xAC00) % 588 / 28 < 0xD800 := by omega
    have htrail : 0x11A7 + (n - 0xAC00) % 28 < 0xD800 := by omega
    intro m hm
    rw [Option.some.injEq] at h
    subst h
    refine hbeyond m ?_ ?_ <;>
      (split at hm <;> simp only [List.mem_cons, List.mem_append, List.not_mem_nil, or_false] at hm <;> omega)
  · cases h

theorem decomposeTo_start (depth : Nat) (hn : isSafe n = true) :
    ∀ m ∈ decomposeTo depth n, isStartPoint m = true := by
  induction depth generalizing n with
  | zero =>
    intro m hm
    obtain rfl := List.mem_singleton.mp hm
    exact isStartPoint_of_isSafe hn
  | succ depth ih =>
    intro m hm
    simp only [decomposeTo] at hm
    split at hm
    · exact jamo?_start ‹_› m hm
    split at hm
    · rename_i a b hpair
      obtain ⟨ha, hb⟩ := pair?_safe hpair hn
      rcases List.mem_append.mp hm with hm | hm
      · exact ih ha m hm
      · obtain rfl := List.mem_singleton.mp hm
        exact hb
    split at hm
    · exact ih (single?_safe ‹_› hn) m hm
    · obtain rfl := List.mem_singleton.mp hm
      exact isStartPoint_of_isSafe hn

/-- What a safe code point stands for may start a name, each part of it. -/
theorem decompose_start (hn : isSafe n = true) : ∀ m ∈ decompose n, isStartPoint m = true := by
  intro m hm
  simp only [decompose] at hm
  split at hm
  · obtain rfl := List.mem_singleton.mp hm
    exact isStartPoint_of_isSafe hn
  · exact decomposeTo_start 4 hn m hm

theorem decompose_ne_nil (n : Nat) : decompose n ≠ [] := by
  have hto : ∀ depth m, decomposeTo depth m ≠ [] := by
    intro depth
    induction depth with
    | zero => simp [decomposeTo]
    | succ depth ih =>
      intro m
      simp only [decomposeTo, jamo?]
      split
      · rename_i h
        split at h
        · rw [Option.some.injEq] at h
          subst h
          split <;> simp
        · cases h
      split
      · simp
      split
      · exact ih _
      · simp
  unfold decompose
  split
  · simp
  · exact hto 4 n

/-! ### Segments -/

theorem edges_digit (h : 0x30 ≤ n ∧ n ≤ 0x39) : (edges n).1 = 0 := by
  have hnone : edgesIn? compatibilityEdges n = none := by
    rw [compatibilityEdges, runs, edgesIn?, if_pos (by omega)]
  have hparts : decompose n = [n] := by
    rw [decompose, if_pos (by omega)]
  have hleans : leans n = false := by
    simp only [leans, Bool.and_eq_false_iff, decide_eq_false_iff_not]
    omega
  simp [edges, hnone, hparts, hleans]

/-- A code point of a name, as it stands in a source: one that stays in names, or a digit of ASCII. -/
def isNamePoint (n : Nat) : Bool := isSafe n || (0x30 ≤ n && n ≤ 0x39)

theorem isNamePoint_iff : isNamePoint n = true ↔ isSafe n = true ∨ (0x30 ≤ n ∧ n ≤ 0x39) := by
  simp only [isNamePoint, Bool.or_eq_true, Bool.and_eq_true, decide_eq_true_eq]

theorem decompose_word (hn : isNamePoint n = true) : ∀ m ∈ decompose n, isWordPoint m = true := by
  intro m hm
  rw [isWordPoint_iff]
  rcases isNamePoint_iff.mp hn with hn | hn
  · exact .inr (decompose_start hn m hm)
  · rw [decompose, if_pos (by omega)] at hm
    obtain rfl := List.mem_singleton.mp hm
    exact .inl hn

/-- A code point of a name that leans on the one before stands for no digit. -/
theorem decompose_leaning (hn : isNamePoint n = true) (hfront : (edges n).1 ≠ 0) :
    ∀ m ∈ decompose n, isStartPoint m = true := by
  rcases isNamePoint_iff.mp hn with hn | hn
  · exact decompose_start hn
  · exact absurd (edges_digit hn) hfront

section Segments
variable {ns : List Nat} (hns : ∀ n ∈ ns, isNamePoint n = true)
include hns

/-- Segments of word characters consist of word characters. -/
theorem segmentsFrom_word (run : Nat) {begun : List Nat} (hbegun : ∀ m ∈ begun, isWordPoint m = true) :
    ∀ seg ∈ segmentsFrom run begun ns, ∀ m ∈ seg, isWordPoint m = true := by
  induction ns generalizing run begun with
  | nil =>
    intro seg hseg m hm
    obtain rfl := List.mem_singleton.mp hseg
    exact hbegun m (List.mem_reverse.mp hm)
  | cons n rest ih =>
    obtain ⟨hn, hrest⟩ := List.forall_mem_cons.mp hns
    have hparts : ∀ m ∈ (decompose n).reverse, isWordPoint m = true := fun m hm =>
      decompose_word hn m (List.mem_reverse.mp hm)
    intro seg hseg m hm
    simp only [segmentsFrom] at hseg
    split at hseg
    · rcases List.mem_cons.mp hseg with rfl | hseg
      · exact hbegun m (List.mem_reverse.mp hm)
      · exact ih hrest _ hparts seg hseg m hm
    split at hseg
    · refine ih hrest _ (fun m hm => ?_) seg hseg m hm
      rcases List.mem_append.mp hm with hm | hm
      · exact hparts m hm
      · exact hbegun m hm
    · rcases List.mem_cons.mp hseg with rfl | hseg
      · rcases List.mem_cons.mp (List.mem_reverse.mp hm) with rfl | hm
        · decide
        · exact hbegun m hm
      · exact ih hrest _ hparts seg hseg m hm

/-- What has been started goes on without digits. -/
theorem segmentsFrom_start (run : Nat) {begun : List Nat} (hne : begun ≠ [])
    (hbegun : ∀ m ∈ begun, isStartPoint m = true) :
    ∃ seg segs, segmentsFrom run begun ns = seg :: segs ∧ seg ≠ [] ∧ ∀ m ∈ seg, isStartPoint m = true := by
  induction ns generalizing run begun with
  | nil => exact ⟨_, [], rfl, by simpa using hne, fun m hm => hbegun m (List.mem_reverse.mp hm)⟩
  | cons n rest ih =>
    obtain ⟨hn, hrest⟩ := List.forall_mem_cons.mp hns
    simp only [segmentsFrom]
    split
    · exact ⟨_, _, rfl, by simpa using hne, fun m hm => hbegun m (List.mem_reverse.mp hm)⟩
    rename_i hfront
    split
    · refine ih hrest _ (by simp [hne]) fun m hm => ?_
      rcases List.mem_append.mp hm with hm | hm
      · exact decompose_leaning hn hfront m (List.mem_reverse.mp hm)
      · exact hbegun m hm
    · refine ⟨_, _, rfl, by simp, fun m hm => ?_⟩
      rcases List.mem_cons.mp (List.mem_reverse.mp hm) with rfl | hm
      · decide
      · exact hbegun m hm

end Segments

/-! ### Order -/

theorem mem_insertMark {l : List Nat} : m ∈ insertMark n l ↔ m = n ∨ m ∈ l := by
  induction l with
  | nil => simp [insertMark]
  | cons k rest ih =>
    simp only [insertMark]
    split
    · simp only [List.mem_cons, ih]
      exact or_left_comm
    · simp

theorem mem_order {l : List Nat} : m ∈ order l ↔ m ∈ l := by
  induction l with
  | nil => simp [order]
  | cons n rest ih => simp [order, mem_insertMark, ih]

/-! ### Putting together -/

theorem composite?_start (h : composite? a b = some c) : isStartPoint c = true := by
  simp only [composite?, Option.map_eq_some_iff] at h
  obtain ⟨⟨c', x, y⟩, hfind, rfl⟩ := h
  have hpair := pairSafe_of_mem (List.mem_append_left splits (List.mem_of_find?_eq_some hfind))
  simp only [pairSafe, Bool.and_eq_true] at hpair
  exact hpair.1.1

theorem syllable?_start (h : syllable? a b = some c) : isStartPoint c = true := by
  rw [isStartPoint_iff]
  simp only [syllable?] at h
  split at h
  · rw [Option.some.injEq] at h
    omega
  split at h
  · rw [Option.some.injEq] at h
    omega
  · cases h

/-- Whether all code points of a segment that is being put together satisfy `p`. -/
structure Joining.All (p : Nat → Bool) (j : Joining) : Prop where
  before : ∀ m ∈ j.before, p m = true
  base : p j.base = true
  after : ∀ m ∈ j.after, p m = true

namespace Joining.All
variable {p : Nat → Bool} {j : Joining} {rest : List Nat}

theorem keep (h : j.All p) (hn : p n = true) : (j.keep n).All p :=
  ⟨h.before, h.base, List.forall_mem_cons.mpr ⟨hn, h.after⟩⟩

theorem rebase (h : j.All p) : j.rebase.All p := by
  simp only [Joining.rebase]
  split
  · exact h
  rename_i n rest hafter
  obtain ⟨hn, hrest⟩ := List.forall_mem_cons.mp (hafter ▸ h.after)
  split
  · refine ⟨fun m hm => ?_, hn, by simp⟩
    rcases List.mem_append.mp hm with hm | hm
    · exact hrest m hm
    · rcases List.mem_cons.mp hm with rfl | hm
      · exact h.base
      · exact h.before m hm
  · exact h

section Start
variable (hp : ∀ n, isStartPoint n = true → p n = true)
include hp

theorem joinBy {one? : Nat → Nat → Option Nat}
    (hone : ∀ {a b c}, one? a b = some c → isStartPoint c = true) (h : j.All p) (hn : p n = true) :
    (j.joinBy one? n).All p := by
  have hrebase := h.rebase
  simp only [Joining.joinBy]
  split
  · exact hrebase.keep hn
  split
  · exact ⟨hrebase.before, hp _ (hone ‹_›), hrebase.after⟩
  · exact hrebase.keep hn

theorem add (h : j.All p) (hn : p n = true) : (j.add n).All p := by
  simp only [Joining.add]
  split
  · exact joinBy hp composite?_start h hn
  · exact h.keep hn

theorem syllables (h : j.All p) (hrest : ∀ m ∈ rest, p m = true) :
    (rest.foldl (Joining.joinBy syllable?) j).All p := by
  induction rest generalizing j with
  | nil => exact h
  | cons n rest ih =>
    obtain ⟨hn, hrest⟩ := List.forall_mem_cons.mp hrest
    exact ih (joinBy hp syllable?_start h hn) hrest

theorem addAll (h : j.All p) (hrest : ∀ m ∈ rest, p m = true) : (j.addAll rest).All p := by
  induction rest generalizing j with
  | nil => exact h
  | cons n rest ih =>
    simp only [Joining.addAll]
    split
    · exact syllables hp h hrest
    · obtain ⟨hn, hrest⟩ := List.forall_mem_cons.mp hrest
      exact ih (add hp h hn) hrest

end Start

theorem points (h : j.All p) : ∀ m ∈ j.points, p m = true := by
  intro m hm
  simp only [Joining.points, List.mem_append, List.mem_reverse, List.mem_cons] at hm
  rcases hm with hm | rfl | hm
  · exact h.before m hm
  · exact h.base
  · exact h.after m hm

end Joining.All

/-- Putting a segment in order and together brings in only characters that may start a name. -/
theorem compose_order {p : Nat → Bool} (hp : ∀ n, isStartPoint n = true → p n = true) {seg : List Nat}
    (hseg : ∀ m ∈ seg, p m = true) : ∀ m ∈ compose (order seg), p m = true := by
  have horder : ∀ m ∈ order seg, p m = true := fun m hm => hseg m (mem_order.mp hm)
  cases h : order seg with
  | nil => simp [compose]
  | cons n rest =>
    rw [h] at horder
    obtain ⟨hn, hrest⟩ := List.forall_mem_cons.mp horder
    exact (Joining.All.addAll hp ⟨by simp, hn, by simp⟩ hrest).points

theorem compose_order_ne_nil {seg : List Nat} (hseg : seg ≠ []) : compose (order seg) ≠ [] := by
  obtain ⟨n, rest, rfl⟩ := List.exists_cons_of_ne_nil hseg
  have hmem : n ∈ order (n :: rest) := mem_order.mpr List.mem_cons_self
  cases h : order (n :: rest) with
  | nil => simp [h] at hmem
  | cons m ms => simp [compose, Joining.points]

/-! ### Names -/

theorem isWordPoint_of_isStartPoint (h : isStartPoint n = true) : isWordPoint n = true := isWordPoint_iff.mpr (.inr h)

theorem isWordPoint_of_isNamePoint (h : isNamePoint n = true) : isWordPoint n = true :=
  isWordPoint_iff.mpr ((isNamePoint_iff.mp h).symm.imp_right isStartPoint_of_isSafe)

theorem toNat_ofNat_word (h : isWordPoint n = true) : (Char.ofNat n).toNat = n := by
  have hvalid : n.isValidChar := by
    rw [isWordPoint_iff, isStartPoint_iff] at h
    simp only [Nat.isValidChar]
    omega
  rw [Char.ofNat, dif_pos hvalid]
  rfl

/-- The code points of a name in segments: those at the front make no digit, and all may stand in a
name. -/
theorem segments_word {ns : List Nat} (hn : isSafe n = true)
    (hns : ∀ m ∈ ns, isNamePoint m = true) :
    ∃ m ms, ((segments (n :: ns)).flatMap fun s => compose (order s)) = m :: ms ∧
      isStartPoint m = true ∧ ∀ k ∈ ms, isWordPoint k = true := by
  have hall : ∀ m ∈ n :: ns, isNamePoint m = true :=
    List.forall_mem_cons.mpr ⟨by simp [isNamePoint, hn], hns⟩
  have hword : ∀ k ∈ (segments (n :: ns)).flatMap (fun s => compose (order s)),
      isWordPoint k = true := by
    intro k hk
    obtain ⟨seg, hseg, hk⟩ := List.mem_flatMap.mp hk
    exact compose_order (fun _ => isWordPoint_of_isStartPoint)
      (segmentsFrom_word hall 0 (by simp) seg hseg) k hk
  have hparts : ∀ m ∈ (decompose n).reverse, isStartPoint m = true := fun m hm =>
    decompose_start hn m (List.mem_reverse.mp hm)
  have hne : (decompose n).reverse ≠ [] := by simpa using decompose_ne_nil n
  -- the first segment that is not empty begins with what stands for `n`
  obtain ⟨seg, segs, hsegs, hseg, hstart⟩ : ∃ (seg : List Nat) (segs : List (List Nat)),
      ((segments (n :: ns)).flatMap fun s => compose (order s)) =
        compose (order seg) ++ segs.flatMap (fun s => compose (order s)) ∧
      seg ≠ [] ∧ ∀ m ∈ seg, isStartPoint m = true := by
    simp only [segments, segmentsFrom]
    split
    · obtain ⟨seg, segs, heq, hseg, hstart⟩ := segmentsFrom_start hns (edges n).2 hne hparts
      refine ⟨seg, segs, ?_, hseg, hstart⟩
      rw [heq, List.flatMap_cons, List.flatMap_cons]
      rfl
    split
    · obtain ⟨seg, segs, heq, hseg, hstart⟩ := segmentsFrom_start hns (0 + (edges n).1) hne hparts
      refine ⟨seg, segs, ?_, hseg, hstart⟩
      rw [List.append_nil, heq, List.flatMap_cons]
    · refine ⟨[graphemeJoiner], _, List.flatMap_cons, by simp, fun m hm => ?_⟩
      obtain rfl := List.mem_singleton.mp hm
      decide
  obtain ⟨m, ms, hm⟩ := List.exists_cons_of_ne_nil (compose_order_ne_nil hseg)
  rw [hm] at hsegs
  refine ⟨m, _, hsegs, ?_, fun k hk => hword k ?_⟩
  · exact compose_order (fun _ h => h) hstart m (by simp [hm])
  · rw [hsegs]
    exact List.mem_cons_of_mem _ hk

/-- A name stays a name in normal form C: no sign comes into it, and no digit to its front. -/
theorem normalize_word {c : Char} {cs : List Char} (hc : isSafe c.toNat = true)
    (hcs : ∀ d ∈ cs, isNamePoint d.toNat = true) :
    ∃ d ds, normalize (c :: cs) = d :: ds ∧ isStartPoint d.toNat = true ∧
      ∀ e ∈ ds, isWordPoint e.toNat = true := by
  simp only [normalize]
  split
  · exact ⟨c, cs, rfl, isStartPoint_of_isSafe hc, fun e he => isWordPoint_of_isNamePoint (hcs e he)⟩
  · obtain ⟨m, ms, heq, hm, hms⟩ := @segments_word c.toNat (cs.map Char.toNat) hc (by simpa using hcs)
    refine ⟨Char.ofNat m, ms.map Char.ofNat, by rw [List.map_cons, heq, List.map_cons], ?_, fun e he => ?_⟩
    · rw [toNat_ofNat_word (isWordPoint_of_isStartPoint hm)]
      exact hm
    · obtain ⟨k, hk, rfl⟩ := List.mem_map.mp he
      rw [toNat_ofNat_word (hms k hk)]
      exact hms k hk

end Anadil.Text
