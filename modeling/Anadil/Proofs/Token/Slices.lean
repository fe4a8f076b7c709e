import Anadil.Proofs.Token.Spacing

/-! # Slices of a source

What the lexer takes from the front of a source does not depend on how much stands behind it. So a stretch of
a source from the start of one token to the end of another, read by itself, is divided into the same tokens
and the end of input. -/

namespace Anadil

namespace Lexer

/-! ### Pieces of a shorter source -/

section Shorter
variable {kind : Kind} {cells : List Cell} {more n : Nat}

theorem run_take {p : Char → Bool} (h : run p cells ≤ n) : run p (cells.take n) = run p cells := by
  induction cells generalizing n with
  | nil => rw [List.take_nil]
  | cons c cells ih =>
    by_cases hc : p c.seen = true
    · simp only [run, List.takeWhile_cons, hc, if_true, List.length_cons] at h
      obtain ⟨n, rfl⟩ : ∃ m, n = m + 1 := ⟨n - 1, by omega⟩
      simpa [run, hc] using ih (n := n) (by simpa [run] using h)
    · cases n with
      | zero => simp [run, hc]
      | succ n => simp [run, hc]

theorem numberRun_take (h : numberRun cells ≤ n) : numberRun (cells.take n) = numberRun cells := by
  have hwhole : run isDigit cells ≤ numberRun cells := by
    unfold numberRun
    dsimp only
    split
    · split <;> omega
    · exact Nat.le_refl _
  have htake : run isDigit (cells.take n) = run isDigit cells := run_take (Nat.le_trans hwhole h)
  have hdrop : (cells.take n).drop (run isDigit cells) =
      (cells.drop (run isDigit cells)).take (n - run isDigit cells) := List.drop_take ..
  simp only [numberRun] at h
  simp only [numberRun, htake, hdrop]
  rcases hrest : cells.drop (run isDigit cells) with _ | ⟨point, _ | ⟨digit, rest⟩⟩
  · rw [List.take_nil]
  · rcases n - run isDigit cells with _ | k
    · rfl
    · rw [List.take_succ_cons, List.take_nil]
  · rw [hrest] at h
    dsimp only at h ⊢
    split at h
    · rename_i hpoint
      obtain ⟨k, hk⟩ : ∃ k, n - run isDigit cells = k + 2 := ⟨n - run isDigit cells - 2, by omega⟩
      have hrun : run isDigit (rest.take k) = run isDigit rest := run_take (by omega)
      rw [hk, List.take_succ_cons, List.take_succ_cons]
      simp only [hpoint, if_true, hrun]
    · rename_i hpoint
      rw [if_neg hpoint]
      rcases n - run isDigit cells with _ | _ | k
      · rfl
      · rfl
      · exact if_neg hpoint

theorem munch_take {c : Cell} (h : munch c cells = .piece kind more) (hmore : more ≤ n) :
    munch c (cells.take n) = .piece kind more := by
  -- the character behind `c` is the same, unless there is none left
  have hahead : 0 < n → (cells.take n).head? = cells.head? := by
    intro hn
    obtain ⟨n, rfl⟩ : ∃ m, n = m + 1 := ⟨n - 1, by omega⟩
    cases cells <;> rfl
  have hnone : (cells.take n).head? = none ∨ (cells.take n).head? = cells.head? := by
    rcases Nat.eq_zero_or_pos n with rfl | hn
    · exact .inl rfl
    · exact .inr (hahead hn)
  unfold munch at h ⊢
  dsimp only at h ⊢
  split at h
  · cases h
    rw [if_pos ‹_›, run_take hmore]
  rw [if_neg ‹_›]
  split at h
  · rename_i hslash
    cases h
    have hn : 0 < n := by
      refine Nat.lt_of_lt_of_le ?_ hmore
      cases cells with
      | nil => simp at hslash
      | cons d cells =>
        simp only [List.head?_cons, Option.map_some, Bool.and_eq_true, beq_iff_eq, Option.some.injEq] at hslash
        simp [run, hslash.2]
    rw [hahead hn, if_pos hslash, run_take hmore]
  rename_i hslash
  have hslash' : ¬ (c.seen == '/' && (cells.take n).head?.map Cell.seen == some '/') = true := by
    rcases hnone with hnone | hsame
    · simp [hnone]
    · rwa [hsame]
  rw [if_neg hslash']
  split at h
  · cases h
    rw [if_pos ‹_›, run_take hmore]
  rw [if_neg ‹_›]
  split at h
  · cases h
    rw [if_pos ‹_›, numberRun_take hmore]
  rw [if_neg ‹_›]
  split at h
  · rw [if_pos ‹_›]
    split at h
    · rename_i quote behind hdrop
      split at h
      · rename_i hclose
        cases h
        obtain ⟨k, hk⟩ : ∃ k, n - run (fun d => d != '"' && d != '\n') cells = k + 1 :=
          ⟨n - run (fun d => d != '"' && d != '\n') cells - 1, by omega⟩
        rw [run_take (by omega), List.drop_take, hdrop, hk, List.take_succ_cons]
        exact if_pos hclose
      · cases h
    · cases h
  rw [if_neg ‹_›]
  split at h
  · rename_i hdouble
    cases h
    rw [hahead hmore, hdouble]
  rename_i hsingle
  have hsingle' : ((cells.take n).head?.map Cell.seen).bind (double? c.seen) = none := by
    rcases hnone with hnone | hsame
    · rw [hnone]
      rfl
    · rwa [hsame]
  rw [hsingle']
  exact h

theorem Piece.cut {front rest behind : List Cell} (h : Piece kind front (rest ++ behind)) :
    Piece kind front rest := by
  obtain ⟨c, cells, more, hmunch, rfl, hcells⟩ := h
  refine ⟨c, cells.take (more + rest.length), more, munch_take hmunch (Nat.le_add_right _ _), ?_, ?_⟩
  · rw [List.take_take, Nat.min_eq_left (Nat.le_add_right _ _)]
  · rw [List.drop_take, ← hcells, Nat.add_sub_cancel_left, List.take_left]

end Shorter

/-! ### Tokens of a stretch -/

section Stretch
variable {p p' : Place} {cells rest behind : List Cell} {ls : List Lexeme} {ts pre core post : List Token} {t : Token}

/-- White space and comments can be passed from any place, whatever is cut off behind them. -/
theorem Skips.cut (h : Skips p cells ls p' (rest ++ behind)) (q : Place) :
    ∃ front ls', cells = front ++ (rest ++ behind) ∧ Skips q (front ++ rest) ls' (q.afterAll front) rest := by
  generalize hend : rest ++ behind = tail at h
  induction h generalizing q with
  | done p cells => exact ⟨[], [], hend.symm ▸ rfl, .done q rest⟩
  | @piece p p' kind front mid cells ls h hkind more ih =>
    obtain ⟨front', ls', rfl, hskips⟩ := ih (q.afterAll front) hend
    refine ⟨front ++ front', lexeme kind q front :: ls', by rw [List.append_assoc], ?_⟩
    rw [← hend, ← List.append_assoc] at h
    have hmore := Skips.piece h.cut hkind hskips
    rw [List.append_assoc]
    rwa [Place.afterAll_append]

/-- The first tokens of a source stand on a stretch of it that, read from any place, has the same tokens. -/
theorem Scans.cut (h : Scans p cells (core ++ post)) (hpost : post ≠ []) :
    ∃ mid rest, cells = mid ++ rest ∧ Scans (p.afterAll mid) rest post ∧
      (core.map (·.span.stop)).getLastD (p.offset : Int) = (p.afterAll mid).offset ∧
      ∀ q, ∃ ts, Scans q mid ts ∧ ts.map Token.word = core.map Token.word ++ [(.endOfInput, [])] := by
  induction core generalizing p cells with
  | nil => exact ⟨[], cells, rfl, h, rfl, fun q => ⟨_, .stop (.done q []), rfl⟩⟩
  | cons t core ih =>
    generalize hts : t :: core ++ post = ts at h
    cases h with
    | stop => simp [hpost] at hts
    | @token _ p' kind _ front rest ls _ _ hskips piece hkind finished more =>
      obtain ⟨rfl, rfl⟩ := List.cons.inj hts
      obtain ⟨mid, rest, rfl, hpost, hstop, hscans⟩ := ih more
      obtain ⟨passed, rfl, rfl⟩ := hskips.passed
      refine ⟨passed ++ (front ++ mid), rest, by simp only [List.append_assoc], ?_, ?_, fun q => ?_⟩
      · rwa [Place.afterAll_append, Place.afterAll_append]
      · rw [List.map_cons, List.getLastD_cons, (finish_ok finished).1]
        rwa [Place.afterAll_append, Place.afterAll_append]
      · rw [← List.append_assoc front mid rest] at hskips
        obtain ⟨passed', ls', heq, hskips⟩ := hskips.cut q
        obtain rfl : passed = passed' := by simpa only [List.append_assoc, List.append_cancel_right_eq] using heq
        obtain ⟨t', ht', hword⟩ :=
          @finish_congr _ (lexeme kind (q.afterAll passed) front) _ _ finished rfl rfl ls'
        obtain ⟨ts, hts, hwords⟩ := hscans ((q.afterAll passed).afterAll front)
        refine ⟨t' :: ts, .token hskips piece.cut hkind ht' hts, ?_⟩
        rw [List.map_cons, hword, hwords]
        rfl

theorem Scans.lead (h : Scans p cells (t :: ts)) (hts : ts ≠ []) :
    ∃ passed rest t', cells = passed ++ rest ∧ t.span.start = (p.afterAll passed).offset ∧ t'.word = t.word ∧
      t'.span = t.span ∧ Scans (p.afterAll passed) rest (t' :: ts) := by
  cases h with
  | stop => exact absurd rfl hts
  | @token _ p' kind _ front rest ls _ _ hskips piece hkind finished more =>
    obtain ⟨passed, rfl, rfl⟩ := hskips.passed
    obtain ⟨t', ht', hword⟩ := finish_congr finished rfl rfl []
    have hspan := (finish_ok finished).1
    refine ⟨passed, front ++ rest, t', rfl, by rw [hspan]; rfl, hword, ?_, .token (.done _ _) piece hkind ht' more⟩
    rw [hspan, (finish_ok ht').1]

end Stretch

end Lexer

/-- A stretch of a source from the start of one token to the end of another is divided into the same tokens. -/
theorem tokenize_slice {source : Text} {pre core post : List Token} {first last : Token}
    (h : tokenize source = .ok (pre ++ (core ++ post))) (hpost : post ≠ []) (hfirst : core.head? = some first)
    (hlast : core.getLast? = some last) :
    ∃ before mid rest tokens, source = before ++ (mid ++ rest) ∧ first.span.start = before.width ∧
      last.span.stop = (before ++ mid).width ∧ Text.StartsClean (mid ++ rest) ∧ Text.StartsClean rest ∧
      tokenize mid = .ok tokens ∧ tokens.map Token.word = core.map Token.word ++ [(.endOfInput, [])] := by
  obtain ⟨core, rfl⟩ := List.head?_eq_some_iff.mp hfirst
  obtain ⟨passed, cells, hcells, hscans, -⟩ := (tokenize_eq_ok_iff.mp h).cut (by simp)
  rw [List.cons_append] at hscans
  obtain ⟨passed', cells, t, rfl, hstart, hword, hspan, hscans⟩ := hscans.lead (by simp [hpost])
  rw [← List.cons_append] at hscans
  obtain ⟨mid, rest, rfl, hrest, hstop, hslice⟩ := hscans.cut hpost
  obtain ⟨tokens, htokens, hwords⟩ := hslice Place.first
  have hplace : ∀ cells, Place.first.afterAll cells = Place.behind (Cell.join cells) := Place.behind_afterAll []
  have hsource : source = Cell.join (passed ++ passed') ++ (Cell.join mid ++ Cell.join rest) := by
    rw [← Cell.join_append, ← Cell.join_append, List.append_assoc, ← hcells, Cell.join_ofText]
  have hafter : (Place.first.afterAll passed).afterAll passed' = Place.behind (Cell.join (passed ++ passed')) := by
    rw [← hplace, Place.afterAll_append]
  rw [hafter] at hstart hscans hrest hstop
  rw [Place.behind_afterAll] at hrest hstop
  have hpaired : Cell.Paired mid := by
    have hall := Cell.paired_ofText source
    rw [hcells] at hall
    exact hall.right_of_append.right_of_append.left_of_append
  refine ⟨Cell.join (passed ++ passed'), Cell.join mid, Cell.join rest, tokens, hsource, hstart, ?_, ?_,
    (hrest.covers rfl).startsClean, ?_, ?_⟩
  · have hmap : (t :: core).map (·.span.stop) = (first :: core).map (·.span.stop) := by
      rw [List.map_cons, hspan, List.map_cons]
    rw [hmap, List.getLastD_eq_getLast?, List.getLast?_map, hlast] at hstop
    exact hstop
  · rw [← Cell.join_append]
    exact (hscans.covers rfl).startsClean
  · rw [tokenize_eq_ok_iff, Cell.ofText_join hpaired]
    exact htokens
  · rw [hwords, List.map_cons, hword]
    rfl

end Anadil
