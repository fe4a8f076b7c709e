import Anadil.Pipeline.Worker
import Anadil.Proofs.Text.Split

/-! # Outputs are compared in one form

What counts of an output are its lines without the blanks at their ends, up to the last line that is not empty. Its
normal form is these lines joined, and they are read back from it, so that two outputs have one normal form exactly if
the same lines count. A carriage return in front of a line feed is one of the blanks at the end of a line. -/

namespace Anadil.Pipeline

open Text

variable {t w l : Text} {ls : List Text} {g : Glyph}

/-- The blanks that do not count at the end of a line. -/
def lineBlanks : Text := " \t\r"

/-- The lines of a text without blanks at their ends. -/
def bareLines (t : Text) : List Text := (t.splitAt '\n').map (trimEnd (· ∈ lineBlanks))

/-- The bare lines up to the last that says something. -/
def tellingLines (t : Text) : List Text := (bareLines t).rdropWhile (· = [])

theorem isLineBlank_eq : isLineBlank = fun g => decide (g ∈ lineBlanks) := by
  funext g
  rw [Bool.eq_iff_iff, decide_eq_true_iff]
  simp only [isLineBlank, Bool.or_eq_true, is_iff, or_assoc]
  simp [lineBlanks, ofString]

/-! ### Lines without blanks -/

/-- One character more in front either begins a line or belongs to the first one. -/
theorem bareLines_cons (g : Glyph) (t : Text) : bareLines (g :: t) =
    if g.is '\n' then [] :: bareLines t else (bareLines t).modifyHead fun l => trimEnd (· ∈ lineBlanks) (g :: l) := by
  rw [bareLines, splitAt, bareLines]
  split
  · rfl
  · cases hlines : splitAt '\n' t with
    | nil => exact absurd hlines (splitAt_ne_nil '\n' t)
    | cons l ls => exact congrArg (· :: _) (trimEnd_append_trimEnd [g] l).symm

theorem bareLines_append (t u : Text) : bareLines (t ++ .char '\n' :: u) = bareLines t ++ bareLines u := by
  rw [bareLines, splitAt_append, List.map_append]
  rfl

theorem bareLines_unixLines (t : Text) : bareLines (unixLines t) = bareLines t := by
  fun_induction unixLines t with
  | case1 => rfl
  | case2 g => rfl
  | case3 g h rest hends ih =>
    rw [Bool.and_eq_true, is_iff, is_iff] at hends
    obtain ⟨rfl, rfl⟩ := hends
    rw [bareLines_cons, bareLines_cons, bareLines_cons, ih]
    rfl
  | case4 g h rest hends ih => rw [bareLines_cons, bareLines_cons g, ih]

theorem bareLines_blanks (h : w ⊆ lineBlanks ++ "\n") :
    bareLines w = [] :: List.replicate (w.count (.char '\n')) [] := by
  induction w with
  | nil => rfl
  | cons g w ih =>
    obtain ⟨hg, hw⟩ := List.cons_subset.mp h
    rw [bareLines_cons, ih hw]
    by_cases hline : g = .char '\n'
    · rw [hline, List.count_cons_self]
      rfl
    · have hblank : g ∈ lineBlanks := (List.mem_append.mp hg).resolve_right (mt List.mem_singleton.mp hline)
      rw [if_neg (mt is_iff.mp hline), List.count_cons_of_ne hline, List.modifyHead_cons]
      exact congrArg (· :: _) (trimEnd_append_of_forall (by simpa using hblank) [])

theorem bareLines_append_blanks (h : w ⊆ lineBlanks ++ "\n") (t : Text) :
    bareLines (t ++ w) = bareLines t ++ List.replicate (w.count (.char '\n')) [] := by
  induction t with
  | nil => exact bareLines_blanks h
  | cons g t ih =>
    rw [List.cons_append, bareLines_cons, bareLines_cons, ih]
    split
    · rfl
    · cases hlines : bareLines t with
      | nil => exact absurd (List.map_eq_nil_iff.mp hlines) (splitAt_ne_nil '\n' t)
      | cons l ls => rfl

theorem mem_bareLines (h : l ∈ bareLines t) : .char '\n' ∉ l ∧ ∀ g ∈ l.getLast?, g ∉ lineBlanks := by
  obtain ⟨p, hp, rfl⟩ := List.mem_map.mp h
  refine ⟨fun hline => notMem_of_mem_splitAt hp ((List.rdropWhile_prefix ..).subset hline), fun g hg => ?_⟩
  exact of_decide_eq_false (getLast?_trimEnd _ p g hg)

/-! ### Normal forms -/

theorem trimEnd_join (h : ∀ l ∈ ls, .char '\n' ∉ l) :
    trimEnd (·.is '\n') (join "\n" ls) = join "\n" (ls.rdropWhile (· = [])) := by
  induction ls using List.reverseRecOn with
  | nil => rfl
  | append_singleton ls l ih =>
    obtain ⟨hls, hl⟩ := List.forall_mem_append.mp h
    have hjoin : ls ≠ [] → join "\n" (ls ++ [l]) = join "\n" ls ++ .char '\n' :: l := fun hne =>
      join_append hne (List.cons_ne_nil l [])
    by_cases hempty : l = []
    · rw [List.rdropWhile_concat_pos _ _ _ (by simpa using hempty), ← ih hls]
      by_cases hne : ls = []
      · rw [hne, hempty]
        rfl
      · rw [hjoin hne, hempty]
        exact trimEnd_append_of_forall (by decide) _
    · rw [List.rdropWhile_concat_neg _ _ _ (by simpa using hempty)]
      have hlast : (join "\n" (ls ++ [l])).getLast? = l.getLast? := by
        by_cases hne : ls = []
        · rw [hne]
          rfl
        · rw [hjoin hne, List.getLast?_append_cons, List.getLast?_cons_of_ne_nil hempty]
      refine trimEnd_eq_self fun g hg => Bool.eq_false_iff.mpr fun hline => ?_
      rw [hlast] at hg
      exact hl l List.mem_cons_self (is_iff.mp hline ▸ List.mem_of_getLast? hg)

theorem normalizeOutput_eq (t : Text) : normalizeOutput t = join "\n" (tellingLines t) := by
  rw [normalizeOutput, isLineBlank_eq]
  refine (congrArg (fun ls => trimEnd (·.is '\n') (join "\n" ls)) (bareLines_unixLines t)).trans ?_
  exact trimEnd_join fun l hl => (mem_bareLines hl).1

theorem mem_tellingLines (h : l ∈ tellingLines t) : .char '\n' ∉ l ∧ ∀ g ∈ l.getLast?, g ∉ lineBlanks :=
  mem_bareLines ((List.rdropWhile_prefix ..).subset h)

theorem splitAt_normalizeOutput (h : tellingLines t ≠ []) : (normalizeOutput t).splitAt '\n' = tellingLines t := by
  rw [normalizeOutput_eq]
  exact splitAt_join h fun l hl => (mem_tellingLines hl).1

theorem tellingLines_normalizeOutput (t : Text) : tellingLines (normalizeOutput t) = tellingLines t := by
  by_cases hne : tellingLines t = []
  · rw [normalizeOutput_eq, hne]
    rfl
  have hbare : (tellingLines t).map (trimEnd (· ∈ lineBlanks)) = (tellingLines t).map id := List.map_congr_left
    fun l hl => trimEnd_eq_self fun g hg => decide_eq_false ((mem_tellingLines hl).2 g hg)
  rw [tellingLines, bareLines, splitAt_normalizeOutput hne, hbare, List.map_id]
  exact List.rdropWhile_idempotent ..

theorem getLast?_line_normalizeOutput (h : l ∈ (normalizeOutput t).splitAt '\n') : ∀ g ∈ l.getLast?, g ∉ lineBlanks := by
  by_cases hne : tellingLines t = []
  · rw [normalizeOutput_eq, hne] at h
    obtain rfl : l = [] := List.mem_singleton.mp h
    exact fun g hg => absurd hg (Option.not_mem_none g)
  · rw [splitAt_normalizeOutput hne] at h
    exact (mem_tellingLines h).2

theorem not_return_newline (h : ∀ l ∈ t.splitAt '\n', ∀ g ∈ l.getLast?, g ∉ lineBlanks) :
    ¬ ("\r\n" : Text) <:+: t := by
  rintro ⟨u, v, huv⟩
  obtain ⟨ls, l, hlines⟩ := splitAt_concat (by decide : Glyph.char '\r' ≠ .char '\n') u
  have ht : t = u ++ [.char '\r'] ++ .char '\n' :: v := by
    rw [← huv]
    simp [ofString]
  refine h (l ++ [.char '\r']) ?_ (.char '\r') List.getLast?_concat (by decide)
  rw [ht, splitAt_append, hlines]
  simp

theorem tellingLines_insert (u v : Text) (h : w ⊆ lineBlanks) :
    tellingLines (u ++ w ++ .char '\n' :: v) = tellingLines (u ++ .char '\n' :: v) := by
  have hnone : w.count (.char '\n') = 0 := List.count_eq_zero.mpr fun hline => absurd (h hline) (by decide)
  rw [tellingLines, bareLines_append, bareLines_append_blanks fun g hg => List.mem_append_left _ (h hg), hnone,
    List.replicate_zero, List.append_nil, ← bareLines_append, tellingLines]

theorem tellingLines_append (h : w ⊆ lineBlanks ++ "\n") (t : Text) : tellingLines (t ++ w) = tellingLines t := by
  rw [tellingLines, bareLines_append_blanks h]
  exact rdropWhile_append (fun l hl => decide_eq_true (List.eq_of_mem_replicate hl)) _

/-! ### One form -/

/-- Normal outputs stay as they are. They have no line ends of two characters, no line that ends in a blank, a tab or a
carriage return, and no line feed at the end. Blanks, tabs and carriage returns in front of a line feed and, with line
feeds among them, at the end make no difference. Two outputs have the same normal form exactly if the same lines count
in them. -/
theorem normalizeOutput_canonical (t : Text) :
    normalizeOutput (normalizeOutput t) = normalizeOutput t ∧
    (¬ ("\r\n" : Text) <:+: normalizeOutput t ∧
      (∀ l ∈ (normalizeOutput t).splitAt '\n', ∀ g ∈ l.getLast?, g ∉ lineBlanks) ∧
      (normalizeOutput t).getLast? ≠ some (.char '\n')) ∧
    (∀ u v w, t = u ++ .char '\n' :: v → w ⊆ lineBlanks →
      normalizeOutput (u ++ w ++ .char '\n' :: v) = normalizeOutput t) ∧
    (∀ w, w ⊆ lineBlanks ++ "\n" → normalizeOutput (t ++ w) = normalizeOutput t) ∧
    ∀ u, normalizeOutput t = normalizeOutput u ↔ tellingLines t = tellingLines u := by
  have hform : ∀ u, normalizeOutput t = normalizeOutput u ↔ tellingLines t = tellingLines u := fun u => by
    refine ⟨fun h => ?_, fun h => ?_⟩
    · rw [← tellingLines_normalizeOutput t, h, tellingLines_normalizeOutput]
    · rw [normalizeOutput_eq, h, normalizeOutput_eq]
  have hlines := fun l => getLast?_line_normalizeOutput (t := t) (l := l)
  refine ⟨((hform _).mpr (tellingLines_normalizeOutput t).symm).symm, ⟨not_return_newline hlines, hlines, fun h => ?_⟩,
    ?_, fun w hw => ((hform _).mpr (tellingLines_append hw t).symm).symm, hform⟩
  · exact Bool.false_ne_true (getLast?_trimEnd (·.is '\n') _ _ h).symm
  · rintro u v w rfl hw
    exact ((hform _).mpr (tellingLines_insert u v hw).symm).symm

end Anadil.Pipeline
