import Anadil.Proofs.Python.Reader

/-! # Phrases

Pieces that are an expression of some strength, whatever stands behind them. Each way to write an expression
is a lemma: in parentheses, behind an operator, between two operands of the right strength, as a call or as
a member. -/

namespace Anadil.Python

variable {rest : List Piece} {p : Piece} {tier : Tier}

/-- How strongly a piece holds on to the expression in front of it. -/
def Piece.grip : Piece → Nat
  | .op o => o.tier.strength
  | .leftParen | .dot => Tier.access.strength
  | _ => 0

/-- What stands behind holds on less strongly than `n`. -/
def Stops (n : Nat) (rest : List Piece) : Prop := ∀ p ∈ rest.head?, p.grip < n

theorem Stops.mono {m n : Nat} (h : Stops m rest) (hle : m ≤ n) : Stops n rest :=
  fun p hp => Nat.lt_of_lt_of_le (h p hp) hle

theorem stops_cons {n : Nat} (h : p.grip < n) : Stops n (p :: rest) := by
  intro q hq
  cases hq
  exact h

theorem Tier.strength_le (tier : Tier) : tier.strength ≤ Tier.access.strength := by
  cases tier <;> decide

theorem Tier.next_strength (h : tier ≠ .access) : tier.next.strength = tier.strength + 1 := by
  cases tier <;> first | contradiction | rfl

theorem Tier.strength_inj {a b : Tier} (h : a.strength = b.strength) : a = b := by
  cases a <;> cases b <;> first | rfl | contradiction

theorem Op.tier_ne (o : Op) : o.tier ≠ .not ∧ o.tier ≠ .negation ∧ o.tier ≠ .access := by
  cases o <;> decide

/-! ### Going on -/

section GoOn
variable {compared : Bool} {t : Term}

/-- Nothing goes on where everything behind holds on less strongly. -/
theorem goOn_stops (h : Stops tier.strength rest) : goOn tier compared t rest = some (t, rest) := by
  cases rest with
  | nil => simp [goOn]
  | cons p rest =>
    have hp : p.grip < tier.strength := h p rfl
    have hle := tier.strength_le
    cases p with
    | op o =>
      have htier : o.tier ≠ tier := by
        rintro rfl
        exact absurd hp (Nat.lt_irrefl _)
      rw [goOn, if_neg htier]
    | leftParen => exact absurd (Nat.lt_of_lt_of_le hp hle) (Nat.lt_irrefl _)
    | dot => exact absurd (Nat.lt_of_lt_of_le hp hle) (Nat.lt_irrefl _)
    | _ => simp [goOn]

theorem goOn_leading (h : tier = .not ∨ tier = .negation) : goOn tier compared t rest = some (t, rest) := by
  have hop : ∀ o : Op, o.tier ≠ tier := by
    intro o
    rcases h with rfl | rfl
    · exact o.tier_ne.1
    · exact o.tier_ne.2.1
  have haccess : tier ≠ .access := by
    rcases h with rfl | rfl <;> decide
  unfold goOn
  split
  · rw [if_neg (hop _)]
  · rw [if_neg haccess]
  · rw [if_neg haccess]
  · rfl

/-- Only comparisons care whether they go on behind a comparison. -/
theorem goOn_compared (h : tier ≠ .comparison) (b : Bool) :
    goOn tier compared t rest = goOn tier b t rest := by
  unfold goOn
  split
  · split
    · rename_i o _ ho
      have hjoin : ∀ r, Term.join compared o t r = Term.join b o t r := by
        intro r
        simp [Term.join, ho, h]
      simp only [hjoin]
    · rfl
  · rfl
  · rfl
  · rfl

end GoOn

/-! ### Pieces that are an expression -/

/-- Pieces that are an expression of a strength: on every tier up to it they are read whole, and the reading
goes on behind them. -/
structure Reads (strength : Nat) (ps : List Piece) (t : Term) : Prop where
  ne_nil : ps ≠ []
  paren_first : ps.head? ≠ some .rightParen
  not_first : ps.head? = some .not → strength ≤ Tier.not.strength
  minus_first : ps.head? = some (.op .sub) → strength ≤ Tier.negation.strength
  reads : ∀ (tier : Tier) (rest : List Piece), tier.strength ≤ strength → Stops (tier.strength + 1) rest →
    term tier (ps ++ rest) =
      goOn tier (tier == .comparison && strength == Tier.comparison.strength) t rest

section Reads
variable {strength : Nat} {ps : List Piece} {t : Term}

theorem Reads.whole (h : Reads strength ps t) (tier : Tier)
    (hle : tier.strength ≤ strength) (hrest : Stops tier.strength rest) :
    term tier (ps ++ rest) = some (t, rest) := by
  rw [h.reads tier rest hle (hrest.mono (Nat.le_succ _)), goOn_stops hrest]

theorem leading?_eq_none (hne : ps ≠ [])
    (hnot : ps.head? = some .not → tier ≠ .not) (hminus : ps.head? = some (.op .sub) → tier ≠ .negation) :
    leading? tier (ps ++ rest) = none := by
  obtain ⟨p, ps, rfl⟩ := List.exists_cons_of_ne_nil hne
  unfold leading?
  split
  · rename_i heq
    cases heq
    exact absurd rfl (hnot rfl)
  · rename_i heq
    cases heq
    exact absurd rfl (hminus rfl)
  · rfl

/-- What is read on its own tier is read on the weaker ones too. -/
theorem Reads.of_own (own : Tier) (hne : ps ≠ []) (hown : own.strength = min strength Tier.access.strength)
    (hparen : ps.head? ≠ some .rightParen)
    (hnot : ps.head? = some .not → strength ≤ Tier.not.strength)
    (hminus : ps.head? = some (.op .sub) → strength ≤ Tier.negation.strength)
    (h : ∀ rest, Stops (own.strength + 1) rest → term own (ps ++ rest) =
      goOn own (own == .comparison && strength == Tier.comparison.strength) t rest) :
    Reads strength ps t := by
  have hall : ∀ (n : Nat) (tier : Tier), tier.strength + n = own.strength → ∀ rest,
      Stops (tier.strength + 1) rest → term tier (ps ++ rest) =
        goOn tier (tier == .comparison && strength == Tier.comparison.strength) t rest := by
    intro n
    induction n with
    | zero =>
      intro tier htier
      obtain rfl := Tier.strength_inj htier
      exact h
    | succ n ih =>
      intro tier htier rest hrest
      have haccess : tier ≠ .access := by
        rintro rfl
        have := own.strength_le
        omega
      have hnext := Tier.next_strength haccess
      have hlead : leading? tier (ps ++ rest) = none := by
        refine leading?_eq_none hne (fun hp => ?_) (fun hp => ?_)
        · rintro rfl
          have := hnot hp
          omega
        · rintro rfl
          have := hminus hp
          omega
      have hoperand : term tier.next (ps ++ rest) = some (t, rest) := by
        rw [ih tier.next (by omega) rest (hrest.mono (by omega)), goOn_stops (hnext ▸ hrest)]
      have hlen : rest.length < (ps ++ rest).length := by
        have := List.length_pos_iff.mpr hne
        rw [List.length_append]
        omega
      have hflag : (tier == .comparison && strength == Tier.comparison.strength) = false := by
        rw [Bool.and_eq_false_iff, beq_eq_false_iff_ne, beq_eq_false_iff_ne]
        by_cases hc : tier = .comparison
        · subst hc
          exact .inr (by omega)
        · exact .inl hc
      rw [term, hlead, hflag]
      simp only [dif_neg haccess, hoperand, if_pos hlen]
  refine ⟨hne, hparen, hnot, hminus,
    fun tier rest hle hrest => hall (own.strength - tier.strength) tier ?_ rest hrest⟩
  have := tier.strength_le
  omega

theorem head?_append (h : ps ≠ []) (more : List Piece) : (ps ++ more).head? = ps.head? := by
  obtain ⟨p, ps, rfl⟩ := List.exists_cons_of_ne_nil h
  rfl

theorem length_lt_append (h : ps ≠ []) (rest : List Piece) : rest.length < (ps ++ rest).length := by
  have := List.length_pos_iff.mpr h
  rw [List.length_append]
  omega

theorem Reads.of_atom (hne : ps ≠ []) (hparen : ps.head? ≠ some .rightParen)
    (hnot : ps.head? ≠ some .not) (hminus : ps.head? ≠ some (.op .sub))
    (h : ∀ rest, atom (ps ++ rest) = some (t, rest)) : Reads 9 ps t := by
  refine .of_own .access hne rfl hparen (fun hp => absurd hp hnot) (fun hp => absurd hp hminus) ?_
  intro rest _
  have hlead : leading? .access (ps ++ rest) = none :=
    leading?_eq_none hne (fun _ => by decide) (fun _ => by decide)
  rw [term, hlead]
  simp only [dif_pos, h, if_pos (length_lt_append hne rest)]
  rfl

/-- In parentheses every expression is as strong as can be. -/
theorem Reads.paren (h : Reads strength ps t) (hs : 1 ≤ strength) :
    Reads 9 (.leftParen :: ps ++ [.rightParen]) t := by
  refine .of_atom (by simp) (by simp) (by simp) (by simp) fun rest => ?_
  have hwhole : term .or (ps ++ .rightParen :: rest) = some (t, .rightParen :: rest) :=
    h.whole .or hs (stops_cons (by decide))
  have happend : .leftParen :: ps ++ [.rightParen] ++ rest = .leftParen :: (ps ++ .rightParen :: rest) := by
    simp
  rw [happend, atom, hwhole]

theorem Reads.leading {mk : Term → Term} (h : Reads strength ps t)
    (htier : tier = .not ∧ p = .not ∧ mk = .not ∨ tier = .negation ∧ p = .op .sub ∧ mk = .negate)
    (hs : tier.strength ≤ strength) : Reads tier.strength (p :: ps) (mk t) := by
  have hlead : ∀ rest, leading? tier (p :: rest) = some (mk, rest) := by
    rcases htier with ⟨rfl, rfl, rfl⟩ | ⟨rfl, rfl, rfl⟩ <;> exact fun _ => rfl
  have hgo : tier = .not ∨ tier = .negation := htier.imp (·.1) (·.1)
  refine .of_own tier (by simp) ?_ ?_ ?_ ?_ fun rest hrest => ?_
  · rcases hgo with rfl | rfl <;> decide
  · rcases htier with ⟨-, rfl, -⟩ | ⟨-, rfl, -⟩ <;> simp
  · rcases htier with ⟨rfl, rfl, -⟩ | ⟨rfl, rfl, -⟩ <;> simp
  · rcases htier with ⟨rfl, rfl, -⟩ | ⟨rfl, rfl, -⟩ <;> simp
  · have hoperand : term tier (ps ++ rest) = some (t, rest) := by
      rw [h.reads tier rest hs hrest, goOn_leading hgo]
    rw [List.cons_append, term, hlead, goOn_leading hgo]
    simp only [List.length_cons, Nat.lt_succ_self, if_true, hoperand, Option.map_some]

/-- Two operands, the left one at least as strong as the operator and the right one stronger. -/
theorem Reads.joined {o : Op} {left right : Nat} {ps₁ ps₂ : List Piece} {l r : Term}
    (hl : Reads left ps₁ l) (hr : Reads right ps₂ r) (hleft : o.tier.strength ≤ left)
    (hcompared : o.tier = .comparison → left ≠ Tier.comparison.strength)
    (hright : o.tier.strength < right) :
    Reads o.tier.strength (ps₁ ++ .op o :: ps₂) (.binary o l r) := by
  have haccess := o.tier_ne.2.2
  have hnext := Tier.next_strength haccess
  have hle := o.tier.strength_le
  have hhead := head?_append hl.ne_nil (.op o :: ps₂)
  refine .of_own o.tier (by simp) (by omega) (by rw [hhead]; exact hl.paren_first)
    (fun hp => ?_) (fun hp => ?_) fun rest hrest => ?_
  · rw [hhead] at hp
    exact Nat.le_trans hleft (hl.not_first hp)
  · rw [hhead] at hp
    exact Nat.le_trans hleft (hl.minus_first hp)
  · -- the left operand leaves no comparison open, so the operator starts no chain
    have hflag : (o.tier == .comparison && left == Tier.comparison.strength) = false := by
      rw [Bool.and_eq_false_iff, beq_eq_false_iff_ne, beq_eq_false_iff_ne]
      by_cases hc : o.tier = .comparison
      · exact .inr (hcompared hc)
      · exact .inl hc
    have hoperand : term o.tier.next (ps₂ ++ rest) = some (r, rest) :=
      hr.whole _ (by omega) (hnext ▸ hrest)
    rw [List.append_assoc, List.cons_append,
      hl.reads o.tier _ hleft (stops_cons (Nat.lt_succ_self _)), hflag, goOn, if_pos rfl, hoperand]
    simp only [if_pos (length_lt_append hr.ne_nil rest), Term.join, Bool.false_and]
    by_cases hc : o.tier = .comparison
    · simp [hc]
    · have hflag' : (o.tier == .comparison) = false := beq_eq_false_iff_ne.mpr hc
      rw [goOn_compared hc false, hflag', Bool.false_and]
      rfl

theorem Reads.behind {t' : Term} {more : List Piece} (h : Reads strength ps t)
    (hs : Tier.access.strength ≤ strength) (hp : p.grip < 9)
    (hgo : ∀ rest, goOn .access false t (p :: (more ++ rest)) = goOn .access false t' rest) :
    Reads Tier.access.strength (ps ++ p :: more) t' := by
  have hhead := head?_append h.ne_nil (p :: more)
  refine .of_own .access (by simp) rfl (by rw [hhead]; exact h.paren_first) (fun hq => ?_)
    (fun hq => ?_) fun rest _ => ?_
  · exact Nat.le_trans hs (h.not_first (hhead ▸ hq))
  · exact Nat.le_trans hs (h.minus_first (hhead ▸ hq))
  · rw [List.append_assoc, List.cons_append, h.reads .access _ hs (stops_cons hp)]
    exact hgo rest

theorem Reads.member (h : Reads strength ps t) (hs : Tier.access.strength ≤ strength) (n : Text) :
    Reads Tier.access.strength (ps ++ [.dot, .name n]) (.member t n) := by
  refine h.behind hs (by decide) fun rest => ?_
  show goOn .access false t (.dot :: .name n :: rest) = _
  rw [goOn, if_pos rfl]

/-- The pieces of arguments, with commas between them. -/
def argPieces : List (List Piece) → List Piece
  | [] => []
  | ps :: more => ps ++ more.flatMap (.comma :: ·)

theorem stops_args (pss : List (List Piece)) (rest : List Piece) :
    Stops 1 (pss.flatMap (.comma :: ·) ++ .rightParen :: rest) := by
  cases pss <;> exact stops_cons (by decide)

section Args
variable {α : Type} {parts : List α} {pieces : α → List Piece} {tree : α → Term}
  (hparts : ∀ part ∈ parts, ∃ n, 1 ≤ n ∧ Reads n (pieces part) (tree part))
include hparts

theorem moreArgs_eq (rest : List Piece) :
    moreArgs ((parts.map pieces).flatMap (.comma :: ·) ++ .rightParen :: rest) =
      some (parts.map tree, rest) := by
  induction parts with
  | nil => simp [moreArgs]
  | cons part parts ih =>
    obtain ⟨⟨n, hn, hpart⟩, hparts⟩ := List.forall_mem_cons.mp hparts
    rw [List.map_cons, List.flatMap_cons, List.cons_append, List.cons_append, List.append_assoc, moreArgs,
      hpart.whole .or hn (stops_args _ rest)]
    simp only [if_pos (length_lt_append hpart.ne_nil _), ih hparts, Option.map_some, List.map_cons]

theorem args_eq (rest : List Piece) :
    args (argPieces (parts.map pieces) ++ .rightParen :: rest) = some (parts.map tree, rest) := by
  cases parts with
  | nil => simp [argPieces, args]
  | cons part parts =>
    obtain ⟨⟨n, hn, hpart⟩, hparts⟩ := List.forall_mem_cons.mp hparts
    rw [List.map_cons, argPieces, List.append_assoc, args, hpart.whole .or hn (stops_args _ rest)]
    · simp only [if_pos (length_lt_append hpart.ne_nil _), moreArgs_eq hparts, Option.map_some,
        List.map_cons]
    · intro behind heq
      obtain ⟨p, ps, hps⟩ := List.exists_cons_of_ne_nil hpart.ne_nil
      have hfirst := hpart.paren_first
      rw [hps] at heq hfirst
      cases heq
      exact hfirst rfl

theorem Reads.call (h : Reads strength ps t) (hs : Tier.access.strength ≤ strength) :
    Reads Tier.access.strength (ps ++ .leftParen :: (argPieces (parts.map pieces) ++ [.rightParen]))
      (.call t (parts.map tree)) := by
  refine h.behind hs (by decide) fun rest => ?_
  rw [List.append_assoc, List.singleton_append, goOn, if_pos rfl, args_eq hparts rest]
  refine if_pos ?_
  rw [List.length_append, List.length_cons]
  omega

end Args

end Reads

end Anadil.Python
