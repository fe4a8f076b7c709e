import Anadil.Text.Glyph
import Mathlib.Data.List.DropRight

/-! # Dividing and joining texts

A text is divided at a character into parts without it, and the parts with the character between them are the text
again. -/

namespace Anadil.Text

variable {c : Char} {g : Glyph} {t p : Text} {ps qs : List Text}

theorem is_iff : g.is c = true ↔ g = .char c := by
  cases g with
  | char d =>
    simp only [Glyph.is, beq_iff_eq, Glyph.char.injEq]
    exact eq_comm
  | byte b => simp [Glyph.is]

theorem notMem_iff : .char c ∉ t ↔ ∀ g ∈ t, g.is c = false :=
  ⟨fun h _ hg => Bool.eq_false_iff.mpr fun his => h (is_iff.mp his ▸ hg),
    fun h hc => Bool.eq_false_iff.mp (h _ hc) (is_iff.mpr rfl)⟩

theorem splitAt_eq_splitOn (c : Char) (t : Text) : splitAt c t = t.splitOn (.char c) := by
  induction t with
  | nil => rfl
  | cons g t ih =>
    rw [splitAt, List.splitOn_cons_eq_if_modifyHead, ← ih]
    by_cases hg : g.is c = true
    · rw [if_pos hg, if_pos (beq_iff_eq.mpr (is_iff.mp hg))]
    · rw [if_neg hg, if_neg (mt beq_iff_eq.mp (mt is_iff.mpr hg))]
      cases hparts : splitAt c t with
      | nil => exact absurd (ih.symm.trans hparts) (List.splitOn_ne_nil _ t)
      | cons part parts => rfl

theorem join_cons_cons (c : Char) (p q : Text) (ps : List Text) :
    join [.char c] (p :: q :: ps) = p ++ .char c :: join [.char c] (q :: ps) := by
  rw [join, List.append_assoc]
  · rfl
  · rintro ⟨⟩

theorem join_eq_intercalate (c : Char) (ps : List Text) : join [.char c] ps = [.char c].intercalate ps := by
  induction ps with
  | nil => rfl
  | cons p ps ih =>
    cases ps with
    | nil => exact List.intercalate_singleton.symm
    | cons q ps => rw [List.intercalate_cons_cons, ← ih, join_cons_cons, List.append_assoc, List.singleton_append]

theorem splitAt_ne_nil (c : Char) (t : Text) : splitAt c t ≠ [] :=
  splitAt_eq_splitOn c t ▸ List.splitOn_ne_nil _ t

theorem length_splitAt_le (c : Char) (t : Text) : (splitAt c t).length ≤ t.length + 1 := by
  induction t with
  | nil => exact Nat.le_refl _
  | cons g t ih =>
    rw [splitAt, List.length_cons]
    split
    · exact Nat.succ_le_succ ih
    · split
      · simp
      · rename_i hparts
        rw [hparts] at ih
        exact Nat.le_succ_of_le ih

theorem splitAt_append (c : Char) (t u : Text) : splitAt c (t ++ .char c :: u) = splitAt c t ++ splitAt c u := by
  simp only [splitAt_eq_splitOn]
  exact List.splitOn_append_cons_self t u

theorem splitAt_of_notMem (h : .char c ∉ t) : splitAt c t = [t] :=
  (splitAt_eq_splitOn c t).trans (List.splitOn_eq_singleton h)

theorem join_splitAt (c : Char) (t : Text) : join [.char c] (splitAt c t) = t := by
  rw [join_eq_intercalate, splitAt_eq_splitOn]
  exact List.intercalate_splitOn _

theorem splitAt_join (hne : ps ≠ []) (h : ∀ p ∈ ps, .char c ∉ p) : splitAt c (join [.char c] ps) = ps := by
  rw [join_eq_intercalate, splitAt_eq_splitOn]
  exact List.splitOn_intercalate _ h hne

theorem join_append (hps : ps ≠ []) (hqs : qs ≠ []) :
    join [.char c] (ps ++ qs) = join [.char c] ps ++ .char c :: join [.char c] qs := by
  obtain ⟨q, qs, rfl⟩ := List.exists_cons_of_ne_nil hqs
  induction ps with
  | nil => exact absurd rfl hps
  | cons p ps ih =>
    cases ps with
    | nil => exact join_cons_cons c p q qs
    | cons r ps =>
      rw [List.cons_append, List.cons_append, join_cons_cons, ← List.cons_append, ih (List.cons_ne_nil r ps),
        join_cons_cons, List.append_assoc]
      rfl

theorem splitAt_concat (hg : g ≠ .char c) (t : Text) : ∃ ps p, splitAt c (t ++ [g]) = ps ++ [p ++ [g]] := by
  induction t with
  | nil => exact ⟨[], [], splitAt_of_notMem fun h => hg (List.mem_singleton.mp h).symm⟩
  | cons h t ih =>
    obtain ⟨ps, p, hparts⟩ := ih
    rw [List.cons_append, splitAt, hparts]
    split
    · exact ⟨[] :: ps, p, rfl⟩
    · cases ps with
      | nil => exact ⟨[], h :: p, rfl⟩
      | cons q ps => exact ⟨(h :: q) :: ps, p, rfl⟩

theorem notMem_of_mem_splitAt (h : p ∈ splitAt c t) : .char c ∉ p := by
  induction t generalizing p with
  | nil => exact List.mem_singleton.mp h ▸ List.not_mem_nil
  | cons g t ih =>
    rw [splitAt] at h
    split at h
    · rcases List.mem_cons.mp h with rfl | h
      · exact List.not_mem_nil
      · exact ih h
    · rename_i hg
      split at h
      · exact List.mem_singleton.mp h ▸ fun hc => hg (is_iff.mpr (List.mem_singleton.mp hc).symm)
      · rename_i part parts hparts
        rw [hparts] at ih
        rcases List.mem_cons.mp h with rfl | h
        · exact fun hc => (List.mem_cons.mp hc).elim (fun hc => hg (is_iff.mpr hc.symm)) (ih List.mem_cons_self)
        · exact ih (List.mem_cons_of_mem part h)

/-! ### Trimming -/

section Trim
variable {d : Glyph → Bool} {w : Text}

theorem exists_trimEnd_append (d : Glyph → Bool) (t : Text) : ∃ w, (∀ g ∈ w, d g = true) ∧ t = trimEnd d t ++ w :=
  ⟨t.rtakeWhile d, fun _ => List.mem_rtakeWhile_imp, (List.rdropWhile_append_rtakeWhile ..).symm⟩

theorem getLast?_trimEnd (d : Glyph → Bool) (t : Text) : ∀ g ∈ (trimEnd d t).getLast?, d g = false := by
  intro g hg
  have hnot := List.head?_dropWhile_not d t.reverse
  rw [trimEnd, List.getLast?_reverse] at hg
  rw [hg] at hnot
  exact hnot

theorem rdropWhile_append {α : Type} {d : α → Bool} {ys : List α} (h : ∀ y ∈ ys, d y = true) (xs : List α) :
    (xs ++ ys).rdropWhile d = xs.rdropWhile d := by
  rw [List.rdropWhile, List.reverse_append, List.dropWhile_append_of_pos fun y hy => h y (List.mem_reverse.mp hy),
    List.rdropWhile]

theorem trimEnd_append_of_forall (h : ∀ g ∈ w, d g = true) (t : Text) : trimEnd d (t ++ w) = trimEnd d t :=
  rdropWhile_append h t

theorem trimEnd_append_trimEnd (t u : Text) : trimEnd d (t ++ trimEnd d u) = trimEnd d (t ++ u) := by
  obtain ⟨w, hw, hu⟩ := exists_trimEnd_append d u
  rw [← trimEnd_append_of_forall hw, List.append_assoc, ← hu]

theorem trimEnd_eq_self (h : ∀ g ∈ t.getLast?, d g = false) : trimEnd d t = t := by
  refine List.rdropWhile_eq_self_iff.mpr fun hne => ?_
  rw [h _ (List.getLast?_eq_some_getLast hne)]
  exact Bool.false_ne_true

end Trim

end Anadil.Text
