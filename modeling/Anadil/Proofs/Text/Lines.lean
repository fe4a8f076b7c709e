import Anadil.Proofs.Text.Split
import Anadil.Text.Class

/-! # Lines of a text

A place in a text is on the line that holds what stands in front of the place behind the last line feed, and
what comes up to the next one. -/

namespace Anadil.Text

variable {t : Text} {g : Glyph}

/-- What stands behind the last line feed. -/
def lastLine (t : Text) : Text := (t.reverse.takeWhile (· != .char '\n')).reverse

/-- What stands in front of the first line feed. -/
def firstLine (t : Text) : Text := t.takeWhile (· != .char '\n')

theorem newline_notMem_takeWhile (t : Text) : .char '\n' ∉ t.takeWhile (· != .char '\n') := by
  intro h
  have hne := List.all_eq_true.mp List.all_takeWhile _ h
  exact absurd rfl (bne_iff_ne.mp hne)

theorem lastLine_suffix (t : Text) : t.lastLine <:+ t := by
  rw [← List.reverse_prefix, lastLine, List.reverse_reverse]
  exact List.takeWhile_prefix _

theorem lastLine_append_of_mem (t : Text) {u : Text} (h : .char '\n' ∈ u) : (t ++ u).lastLine = u.lastLine := by
  have hshort : (u.reverse.takeWhile (· != .char '\n')).length ≠ u.reverse.length := by
    intro hlength
    have hall := (List.takeWhile_prefix _).eq_of_length hlength
    refine newline_notMem_takeWhile u.reverse ?_
    rw [hall]
    exact List.mem_reverse.mpr h
  rw [lastLine, List.reverse_append, List.takeWhile_append, if_neg hshort, lastLine]

theorem lastLine_append_of_notMem (t : Text) {u : Text} (h : .char '\n' ∉ u) :
    (t ++ u).lastLine = t.lastLine ++ u := by
  have hall : ∀ g ∈ u.reverse, (g != .char '\n') = true := fun g hg =>
    bne_iff_ne.mpr fun hg' => h (hg' ▸ List.mem_reverse.mp hg)
  rw [lastLine, List.reverse_append, List.takeWhile_append_of_pos hall, List.reverse_append,
    List.reverse_reverse, lastLine]

theorem lastLine_of_notMem (h : .char '\n' ∉ t) : t.lastLine = t := lastLine_append_of_notMem [] h 
theorem firstLine_cons (h : g ≠ .char '\n') (t : Text) : firstLine (g :: t) = g :: firstLine t :=
  List.takeWhile_cons_of_pos (bne_iff_ne.mpr h)

theorem splitAt_newline (t : Text) : splitAt '\n' (.char '\n' :: t) = [] :: splitAt '\n' t := rfl

theorem splitAt_cons (h : g ≠ .char '\n') {part : Text} {parts : List Text}
    (ht : splitAt '\n' t = part :: parts) : splitAt '\n' (g :: t) = (g :: part) :: parts := by
  rw [splitAt, if_neg (mt is_iff.mp h), ht]

theorem splitAt_eq_cons (t : Text) : ∃ parts, splitAt '\n' t = t.firstLine :: parts := by
  induction t with
  | nil => exact ⟨[], rfl⟩
  | cons g t ih =>
    obtain ⟨parts, ht⟩ := ih
    by_cases hg : g = .char '\n'
    · subst hg
      exact ⟨_, splitAt_newline t⟩
    · rw [firstLine_cons hg]
      exact ⟨parts, splitAt_cons hg ht⟩

/-- The line of a text that a place is on, counted by the line feeds in front of the place. -/
theorem splitAt_line (t u : Text) :
    (splitAt '\n' (t ++ u))[t.count (.char '\n')]? = some (t.lastLine ++ u.firstLine) := by
  induction t with
  | nil =>
    obtain ⟨parts, hparts⟩ := splitAt_eq_cons u
    rw [List.nil_append, hparts]
    rfl
  | cons g t ih =>
    by_cases hg : g = .char '\n'
    · subst hg
      have hlast : lastLine (.char '\n' :: t) = lastLine t := by
        by_cases ht : .char '\n' ∈ t
        · exact lastLine_append_of_mem [.char '\n'] ht
        · have happend : lastLine ([.char '\n'] ++ t) = [] ++ t := lastLine_append_of_notMem _ ht
          rw [lastLine_of_notMem ht]
          exact happend
      rw [List.cons_append, splitAt_newline, List.count_cons_self, List.getElem?_cons_succ, ih, hlast]
    · obtain ⟨parts, hparts⟩ := splitAt_eq_cons (t ++ u)
      rw [hparts] at ih
      rw [List.cons_append, splitAt_cons hg hparts, List.count_cons_of_ne hg]
      by_cases ht : .char '\n' ∈ t
      · obtain ⟨n, hn⟩ := Nat.exists_eq_add_one_of_ne_zero (Nat.ne_of_gt (List.count_pos_iff.mpr ht))
        have hlast : lastLine (g :: t) = lastLine t := lastLine_append_of_mem [g] ht
        rw [hn, List.getElem?_cons_succ] at ih ⊢
        rw [ih, hlast]
      · have hzero : t.count (.char '\n') = 0 := List.count_eq_zero.mpr ht
        have hlast : lastLine (g :: t) = g :: lastLine t := by
          rw [lastLine_of_notMem ht, lastLine_of_notMem]
          simp [ht, Ne.symm hg]
        rw [hzero, List.getElem?_cons_zero, Option.some.injEq] at ih ⊢
        rw [ih, hlast, List.cons_append]

/-! ### Ends of lines -/

theorem dropEnd_prefix (t p : Text) : dropEnd t p <+: t := by
  unfold dropEnd
  split
  · exact List.take_prefix _ _
  · exact List.prefix_refl _

theorem dropEnd_append_return (t : Text) : dropEnd (t ++ [.char '\r']) "\r" = t := by
  have hsuffix : List.isSuffixOf ("\r" : Text) (t ++ [.char '\r']) = true :=
    List.isSuffixOf_iff_suffix.mpr ⟨t, rfl⟩
  rw [dropEnd, if_pos hsuffix, List.length_append]
  exact List.take_left

theorem dropEnd_of_ne (h : ∀ g ∈ t.getLast?, g ≠ .char '\r') : dropEnd t "\r" = t := by
  have hsuffix : ¬ List.isSuffixOf ("\r" : Text) t = true := by
    intro hs
    obtain ⟨u, rfl⟩ := List.isSuffixOf_iff_suffix.mp hs
    exact h (.char '\r') (List.getLast?_concat ..) rfl
  rw [dropEnd, if_neg hsuffix]

theorem dropEnd_append_cons (t : Text) (hg : g ≠ .char '\r') (u : Text) :
    dropEnd (t ++ g :: u) "\r" = t ++ g :: dropEnd u "\r" := by
  rcases List.eq_nil_or_concat u with rfl | ⟨u, h, rfl⟩
  · rw [dropEnd_of_ne (by simpa using hg), dropEnd_of_ne (by simp)]
  · have happend : t ++ g :: (u ++ [h]) = (t ++ g :: u) ++ [h] := by simp
    rw [List.concat_eq_append, happend]
    by_cases hh : h = .char '\r'
    · subst hh
      rw [dropEnd_append_return, dropEnd_append_return]
    · have hlast : ∀ v : Text, ∀ k ∈ (v ++ [h]).getLast?, k ≠ .char '\r' := by simpa using hh
      rw [dropEnd_of_ne (hlast _), dropEnd_of_ne (hlast _), happend]

/-- A carriage return at the end of a line stands behind every place of it that is not white space. -/
theorem dropEnd_firstLine (t : Text) (hg : isSpace g.seen = false) (u : Text) :
    dropEnd (t ++ firstLine (g :: u)) "\r" = t ++ g :: dropEnd (firstLine u) "\r" := by
  have hne : ∀ c, isSpace c = true → g ≠ .char c := by
    rintro c hc rfl
    exact absurd hc (Bool.eq_false_iff.mp hg)
  rw [firstLine_cons (hne '\n' (by decide)), dropEnd_append_cons t (hne '\r' (by decide))]

theorem dropEnd_return (t : Text) :
    dropEnd t "\r" = t ∨ t = dropEnd t "\r" ++ [.char '\r'] := by
  rcases List.eq_nil_or_concat t with rfl | ⟨t, g, rfl⟩
  · exact .inl rfl
  · rw [List.concat_eq_append]
    by_cases hg : g = .char '\r'
    · subst hg
      rw [dropEnd_append_return]
      exact .inr rfl
    · exact .inl (dropEnd_of_ne (by simpa using hg))

end Anadil.Text
