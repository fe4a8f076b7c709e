import Anadil.Fault

/-! # Codes and chains of causes

The code of a fault is that of a cause in its chain, but kinds of causes are looked for one after another, each in the
whole chain. So a cause of a kind that is looked for earlier gives its code also where it stands behind another cause
that has one. -/

namespace Anadil.Fault

variable {f g h : Fault} {before behind : List Fault} {c : Code}

/-- The code of a fault by itself, whatever stands behind it. -/
def ownCode : Fault → Option Code
  | compile stage .. => some (if stage = ("lex" : Text) then .lexError else .parseError)
  | lex .. => some .lexError
  | parse .. => some .parseError
  | tool .. => some .externalTool
  | outputDiffers .. => some .verifyMismatch
  | treeDiffers .. => some .parityMismatch
  | database .. => some .database
  | file .. => some .writeFile
  | _ => none

/-- When the kind of a fault is looked for. Those without a code come last. -/
def rank : Fault → Nat
  | compile .. => 0
  | lex .. => 1
  | parse .. => 2
  | tool .. => 3
  | outputDiffers .. => 4
  | treeDiffers .. => 5
  | database .. => 6
  | file .. => 7
  | _ => 8

/-- The test that is made for a kind. -/
def ofRank (n : Nat) (f : Fault) : Option Code := if f.rank = n then f.ownCode else none

/-! ### Kinds -/

theorem classifiers_eq : classifiers = (List.range 8).map ofRank := by
  iterate 8 refine List.cons_eq_cons.mpr ⟨funext fun f => by cases f <;> rfl, ?_⟩
  rfl

theorem ofRank_rank (f : Fault) : ofRank f.rank f = f.ownCode := if_pos rfl

theorem rank_lt_iff : g.rank < 8 ↔ g.ownCode ≠ none := by
  cases g <;> simp [rank, ownCode]

theorem ownCode_ne_unknown : g.ownCode ≠ some .unknown := by
  cases g with
  | compile stage =>
    rw [ownCode]
    split <;> simp
  | _ => simp [ownCode]

/-- The code of a fault is that of the outermost of the causes that are looked for first. -/
theorem code_cases (f : Fault) :
    (∀ g ∈ f.chain, g.ownCode = none) ∧ f.code = .unknown ∨
    ∃ before g behind, f.chain = before ++ g :: behind ∧ g.ownCode = some f.code ∧
      (∀ x ∈ before, g.rank < x.rank) ∧ ∀ x ∈ behind, g.rank ≤ x.rank := by
  unfold code
  rw [classifiers_eq, List.findSome?_map]
  cases hfound : (List.range 8).findSome? _ with
  | none =>
    refine .inl ⟨fun g hg => Classical.not_not.mp fun hcode => hcode ?_, rfl⟩
    have hnone := List.findSome?_eq_none_iff.mp hfound g.rank (List.mem_range.mpr (rank_lt_iff.mpr hcode))
    exact (ofRank_rank g).symm.trans (List.findSome?_eq_none_iff.mp hnone g hg)
  | some c =>
    obtain ⟨ns, n, ms, hrange, hfirst, hearlier⟩ := List.findSome?_eq_some_iff.mp hfound
    obtain ⟨before, g, behind, hchain, hg, hbefore⟩ := List.findSome?_eq_some_iff.mp hfirst
    obtain ⟨rfl, hcode⟩ := Option.ite_none_right_eq_some.mp hg
    have hlast : g.rank < 8 := rank_lt_iff.mpr (hcode ▸ Option.some_ne_none c)
    -- no cause of a kind that is looked for earlier is in the chain
    have hle : ∀ x ∈ f.chain, g.rank ≤ x.rank := fun x hx => Nat.le_of_not_lt fun hlt => by
      have hmem : x.rank ∈ ns ++ g.rank :: ms := hrange ▸ List.mem_range.mpr (Nat.lt_trans hlt hlast)
      have hsorted := List.pairwise_append.mp (hrange ▸ List.pairwise_lt_range)
      rcases List.mem_append.mp hmem with hmem | hmem
      · have hown := List.findSome?_eq_none_iff.mp (hearlier _ hmem) x hx
        exact rank_lt_iff.mp (Nat.lt_trans hlt hlast) ((ofRank_rank x).symm.trans hown)
      · rcases List.mem_cons.mp hmem with heq | hmem
        · exact Nat.ne_of_lt hlt heq
        · exact Nat.lt_asymm hlt ((List.pairwise_cons.mp hsorted.2.1).1 _ hmem)
    rw [hchain, List.forall_mem_append, List.forall_mem_cons] at hle
    refine .inr ⟨before, g, behind, hchain, hcode, fun x hx => Nat.lt_of_le_of_ne (hle.1 x hx) fun heq => ?_, hle.2.2⟩
    have hown : x.ownCode = none := (ofRank_rank x).symm.trans (heq ▸ hbefore x hx)
    exact rank_lt_iff.mp (heq ▸ hlast) hown

/-! ### Chains -/

theorem chain_cases (f : Fault) : f.chain = [f] ∨ ∃ c : Fault, f.chain = f :: c.chain := by
  rw [chain.eq_def]
  split <;> first | exact .inl rfl | exact .inr ⟨_, rfl⟩

theorem chain_of_mem_chain (h : f.chain = before ++ g :: behind) : g.chain = g :: behind := by
  induction before generalizing f with
  | nil =>
    obtain rfl : f = g := by
      rcases chain_cases f with hf | ⟨c, hf⟩ <;> exact (List.cons.inj (hf.symm.trans h)).1
    exact h
  | cons x before ih =>
    rcases chain_cases f with hf | ⟨c, hf⟩
    · exact absurd (List.cons.inj (hf.symm.trans h)).2.symm (by simp)
    · exact ih (List.cons.inj (hf.symm.trans h)).2

/-- Where a cause stands behind another one and is looked for first, they have different codes. -/
theorem ownCode_ne_of_rank_lt (hchain : g.chain = g :: behind) (hmem : h ∈ behind) (hrank : h.rank < g.rank) :
    h.ownCode ≠ g.ownCode := by
  have hleaf : g.chain = [g] → False := fun hg => by
    rw [(List.cons.inj (hchain.symm.trans hg)).2] at hmem
    cases hmem
  cases g with
  | compile => exact absurd hrank (Nat.not_lt_zero _)
  | lex | parse | outputDiffers | treeDiffers => exact (hleaf (chain.eq_def _)).elim
  | tool | database | file =>
    cases h with
    | compile =>
      simp only [ownCode]
      split <;> simp
    | _ => simp [ownCode, rank] at hrank ⊢
  | _ => exact rank_lt_iff.mp hrank

/-! ### The outermost code -/

theorem same_or_apart {before' behind' : List Fault} (hchain : before ++ g :: behind = before' ++ h :: behind') :
    g = h ∨ h ∈ before ∧ g ∈ behind' ∨ g ∈ before' := by
  rcases List.append_eq_append_iff.mp hchain with ⟨as, rfl, has⟩ | ⟨bs, rfl, hbs⟩
  · cases as with
    | nil => exact .inl (List.cons.inj has).1
    | cons a as =>
      obtain ⟨rfl, -⟩ := List.cons.inj has
      exact .inr (.inr (by simp))
  · cases bs with
    | nil => exact .inl (List.cons.inj hbs).1.symm
    | cons b bs =>
      obtain ⟨rfl, rfl⟩ := List.cons.inj hbs
      exact .inr (.inl ⟨by simp, by simp⟩)

/-- A fault has no code exactly if nothing in its chain has one. The code of the outermost cause that has one is the
code of the fault exactly if no cause behind it is of a kind that is looked for earlier. In any case the code is that of
the outermost of the causes that are looked for first. -/
theorem code_outermost_iff (f : Fault) :
    (f.code = .unknown ↔ ∀ g ∈ f.chain, g.ownCode = none) ∧
    (∀ before g behind c, f.chain = before ++ g :: behind → (∀ x ∈ before, x.ownCode = none) → g.ownCode = some c →
      (f.code = c ↔ ∀ x ∈ behind, g.rank ≤ x.rank)) ∧
    ((∃ g ∈ f.chain, g.ownCode ≠ none) → ∃ before g behind, f.chain = before ++ g :: behind ∧
      g.ownCode = some f.code ∧ (∀ x ∈ before, g.rank < x.rank) ∧ ∀ x ∈ behind, g.rank ≤ x.rank) := by
  rcases code_cases f with ⟨hnone, hunknown⟩ | ⟨before', h, behind', hchain', hcode, hfirst, hleast⟩
  · refine ⟨iff_of_true hunknown hnone, fun before g behind c hchain _ hg => ?_,
      fun ⟨g, hg, hcode⟩ => absurd (hnone g hg) hcode⟩
    have hmem : g ∈ f.chain := hchain ▸ List.mem_append_right before List.mem_cons_self
    rw [hnone g hmem] at hg
    cases hg
  · have hmem : h ∈ f.chain := hchain' ▸ List.mem_append_right before' List.mem_cons_self
    refine ⟨iff_of_false (fun hunknown => ownCode_ne_unknown (hunknown ▸ hcode)) fun hnone => ?_,
      fun before g behind c hchain hbefore hg => ?_,
      fun _ => ⟨before', h, behind', hchain', hcode, hfirst, hleast⟩⟩
    · rw [hnone h hmem] at hcode
      cases hcode
    · rcases same_or_apart (hchain'.symm.trans hchain) with rfl | ⟨hin, hbehind⟩ | hin
      · refine iff_of_true (Option.some.inj (hcode.symm.trans hg)) fun x hx => ?_
        have hx' : x ∈ before' ++ h :: behind' :=
          hchain' ▸ hchain ▸ List.mem_append_right before (List.mem_cons_of_mem h hx)
        rcases List.mem_append.mp hx' with hx' | hx'
        · exact Nat.le_of_lt (hfirst x hx')
        · exact (List.mem_cons.mp hx').elim (fun heq => heq ▸ Nat.le_refl _) (hleast x)
      · have hlt := hfirst g hin
        refine iff_of_false (fun heq => ?_) fun hall => Nat.not_le_of_lt hlt (hall h hbehind)
        exact ownCode_ne_of_rank_lt (chain_of_mem_chain hchain) hbehind hlt (by rw [hcode, hg, heq])
      · rw [hbefore h hin] at hcode
        cases hcode

/-- A file that could not be written because the store failed has the store's code. -/
theorem code_behind_outermost :
    let f := file "write" "a.py" (some (database "insert" (some (plain "x"))))
    f.ownCode = some .writeFile ∧ f.code = .database := ⟨rfl, rfl⟩

end Anadil.Fault
